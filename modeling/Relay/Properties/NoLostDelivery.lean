import Relay.Pipeline.Carriers
import Relay.Pipeline.Rows
import Relay.Pipeline.Schedule

/-!
# No lost delivery

A delivery that is not settled always has something that will bring it back: an
entry that is not acknowledged, a member of the retry set, or a replay that is
about to append an entry. The invariant counts an entry only while its handling
has not yet discharged its duty, that is settled the row or scheduled a retry.
-/

namespace Relay

open Enqueue RetryQueue Worker Api Transition

/-- A replay or approval that has yet to append an entry of the delivery. -/
def Api.Job.Adds (id : Uuid) : Job → Prop
  | .enqueueing source commands =>
    source ≠ .ingest ∧ ∃ f, Command.xadd f ∈ commands ∧ f.deliveryId = id
  | _ => False

/-- Every member that a replay removes it also appends, later. -/
def Api.Covered (source : Source) : List Command → Prop
  | [] => True
  | .zrem m :: rest => (source ≠ .ingest ∧
      ∃ f, Command.xadd f ∈ rest ∧ f.deliveryId = m.deliveryId) ∧ Covered source rest
  | _ :: rest => Covered source rest

def Api.Job.Covered : Job → Prop
  | .enqueueing source commands => Api.Covered source commands
  | _ => True

namespace Api

theorem covered_append {source : Source} {first second : List Command}
    (covered : Covered source first) (covered' : Covered source second) :
    Covered source (first ++ second) := by
  induction first with
  | nil => exact covered'
  | cons command rest ih =>
    cases command with
    | zrem m =>
      obtain ⟨⟨replays, f, later, same⟩, tail⟩ := covered
      exact ⟨⟨replays, f, List.mem_append_left _ later, same⟩, ih tail⟩
    | rpush | xadd => exact ih covered

theorem covered_flatMap {A : Type} {source : Source} {g : A → List Command} {items : List A}
    (each : ∀ a ∈ items, Covered source (g a)) : Covered source (items.flatMap g) := by
  induction items with
  | nil => trivial
  | cons a rest ih =>
    rw [List.flatMap_cons]
    exact covered_append (each a List.mem_cons_self)
      (ih (fun b h => each b (List.mem_cons_of_mem _ h)))

theorem covered_tail {source : Source} {command : Command} {rest : List Command}
    (covered : Covered source (command :: rest)) : Covered source rest := by
  cases command with
  | zrem => exact covered.2
  | rpush | xadd => exact covered

theorem covered_enqueueInOrder (source : Source) (ordered : Bool) (d : Delivery) :
    Covered source (Command.enqueueInOrder ordered d) := by
  cases ordered <;> trivial

theorem mem_enqueueInOrder (ordered : Bool) (d : Delivery) :
    Command.enqueue d ∈ Command.enqueueInOrder ordered d :=
  List.mem_append_right _ List.mem_cons_self

theorem Requeues.covered {streamShards : Nat} {rows : List Delivery} {source : Source}
    {commands : List Command} (issued : Requeues streamShards rows source commands) :
    Covered source commands := by
  cases issued with
  | replay ordering =>
    refine covered_flatMap (fun d _ => ⟨⟨by decide, d.fields, ?_, rfl⟩, ?_⟩)
    · exact mem_enqueueInOrder _ d
    · exact covered_enqueueInOrder _ _ d
  | approve =>
    rw [Approve.commands, List.map_eq_flatMap]
    exact covered_flatMap (fun d _ => trivial)

theorem Requeues.adds {streamShards : Nat} {rows : List Delivery} {source : Source}
    {commands : List Command} (issued : Requeues streamShards rows source commands)
    {id : Uuid} (listed : ∃ d ∈ rows, d.id = id) :
    (Job.enqueueing source commands).Adds id := by
  obtain ⟨d, listed, same⟩ := listed
  cases issued with
  | replay ordering =>
    refine ⟨by decide, d.fields, List.mem_flatMap.mpr ⟨d, listed, ?_⟩, same⟩
    exact List.mem_cons_of_mem _ (mem_enqueueInOrder _ d)
  | approve => exact ⟨by decide, d.fields, List.mem_map.mpr ⟨d, listed, rfl⟩, same⟩

theorem JobMove.covered {streamShards : Nat} {s : Store} {j j' : Job} {c : Core}
    (move : JobMove streamShards s j c j') (old : j.Covered) : j'.Covered := by
  cases move with
  | stay => exact old
  | commit => exact covered_flatMap (fun d _ => covered_enqueueInOrder _ _ d)
  | requeue issued => exact issued.covered
  | exec => exact covered_tail old
  | _ => trivial

/-- An ingestion never counts as a replay. -/
theorem Ingest.not_adds (r : Ingest) (id : Uuid) : ¬ r.job.Adds id := by
  intro adds
  unfold Ingest.job at adds
  cases pc : r.pc with
  | enqueue eventId commands =>
    simp only [pc] at adds
    exact adds.1 rfl
  | _ =>
    simp only [pc] at adds
    exact adds

end Api

namespace World

variable {env : Env} {l : Label} {x y : World} {id : Uuid}

/-- Replays and approvals run to completion. -/
def ReplaysComplete (x : World) (l : Label) : Prop :=
  ∀ r q, l = .fail r → x.requests r = some q → ∃ q', q = .ingest q'

/-- If the delivery has a row, its endpoint is active. -/
def EndpointActive (id : Uuid) (x : World) : Prop :=
  ∀ row e, x.store.db.delivery id = some row → x.store.db.endpoint row.endpointId = some e →
    e.status = .active

structure Undisturbed (id : Uuid) (x : World) (l : Label) : Prop where
  released : ClaimsReleased x l
  complete : ReplaysComplete x l
  active : EndpointActive id x

/-- An entry that is not acknowledged, a member, or a replay about to XADD. -/
def Carried (env : Env) (x : World) (id : Uuid) : Prop :=
  (∃ n i f, x.Entry n i f ∧ f.deliveryId = id ∧ x.Unacked n i) ∨
    (∃ m, x.Retrying m ∧ m.deliveryId = id) ∨
    ∃ r q, x.requests r = some q ∧ (q.job env.settings.streamShards).Adds id

/-- A carrier that no handling has done with. -/
inductive Owed (env : Env) (x : World) (id : Uuid) : Prop
  | entry {n i : Nat} {f : Fields} (entry : x.Entry n i f) (same : f.deliveryId = id)
      (unacked : x.Unacked n i)
      (due : ∀ w h, x.Handles w h → x.shard w = n → h.messageId = i →
        ¬ h.pc.session.Discharged)
  | member {m : Member} (retrying : x.Retrying m) (same : m.deliveryId = id)
  | request {r : Nat} {q : Request} (running : x.requests r = some q)
      (adds : (q.job env.settings.streamShards).Adds id)

theorem Owed.carried (owed : Owed env x id) : Carried env x id := by
  cases owed with
  | entry entry same unacked _ => exact Or.inl ⟨_, _, _, entry, same, unacked⟩
  | member retrying same => exact Or.inr (Or.inl ⟨_, retrying, same⟩)
  | request running adds => exact Or.inr (Or.inr ⟨_, _, running, adds⟩)

def Open (x : World) (id : Uuid) : Prop :=
  ∃ row, x.core.delivery id = some row ∧ ¬ row.status.Settled

/-- Requests remove members only on the way to appending them. -/
def AllCovered (env : Env) (x : World) : Prop :=
  ∀ r q, x.requests r = some q → (q.job env.settings.streamShards).Covered

theorem AllCovered.step (covered : AllCovered env x) (change : Change env x y l) :
    AllCovered env y := by
  intro r q running
  cases change.serves running with
  | same old _ => exact covered r q old
  | arrived _ _ idle => exact idle ▸ trivial
  | failed _ _ ended => exact ended ▸ trivial
  | moved _ old move => exact move.covered (covered r _ old)

/-- A new entry is a carrier. -/
theorem Owed.of_new (excl : Exclusive y) (change : Change env x y l) {n i : Nat} {f : Fields}
    (entry : y.Entry n i f) (same : f.deliveryId = id) (new : ∀ f, ¬ x.Entry n i f) :
    Owed env y id := by
  have unread := change.new_unread entry new
  exact .entry entry same (Or.inl unread)
    (fun w h handles shard messageId => absurd messageId (excl.unread unread handles shard))

/-- An entry whose handling still owes an outcome is a carrier. -/
theorem Owed.of_handled (inv : Consistent env x) (excl : Exclusive x) {w : Nat} {h : Handling}
    (handles : x.Handles w h) (same : h.fields.deliveryId = id)
    (due : ¬ h.pc.session.Discharged) : Owed env x id := by
  refine .entry (handles.entry inv) same (handles.unacked excl) ?_
  intro w' h' handles' shard messageId
  rw [(excl.handler handles handles' shard messageId).2]
  exact due

/-- An attempt without a retry settles the row, whatever the row was. -/
theorem flush_outcome {c : Core} {f : Fields} {d outcome row : Delivery} {e : Endpoint}
    (sound : Session.Sound c f (.committing d e outcome none)) :
    (d.flush outcome row).status.Settled := by
  obtain ⟨_, delivering, _, _, settled⟩ := sound
  have outcomeSettled : outcome.status.Settled := by
    rcases settled with ⟨_, settled⟩ | ⟨impossible, _⟩
    · exact settled
    · exact absurd rfl impossible
  have changed : outcome.status ≠ d.status := by
    intro same
    rw [same, delivering] at outcomeSettled
    exact not_settled_delivering outcomeSettled
  rw [Delivery.flush_status, if_neg changed]
  exact outcomeSettled

/-- Before it owes nothing more, a handling settles the row or schedules a retry. -/
theorem Move.discharges {clock : ℚ} {shard messageId : Nat} {f : Fields} {q q' : Session}
    {c : Core} (move : Move env clock shard messageId f.deliveryId x.store q c q')
    (inv : Consistent env x) (active : EndpointActive f.deliveryId x)
    (known : x.core.Known f) (sound : q.Sound x.core f) (due : ¬ q.Discharged)
    (done : q'.Discharged) :
    (∀ row, c.delivery f.deliveryId = some row → row.status.Settled) ∨
      ∃ m, c.queues.retries.Mem m ∧ m.deliveryId = f.deliveryId := by
  have member : ∀ {d : Delivery} {e : Endpoint} {dueAt : ℚ}, Copies x.core f d e →
      ∃ m, (x.core.scheduleRetry (retryMember env d e) dueAt).queues.retries.Mem m ∧
        m.deliveryId = f.deliveryId := by
    intro d e dueAt copies
    exact ⟨retryMember env d e, ZSet.mem_zadd.mpr (Or.inr rfl),
      congrArg Fields.deliveryId copies.fields⟩
  -- the row of the entry, with its event and its endpoint
  obtain ⟨r, found, event, endpoint⟩ := known.row
  obtain ⟨⟨ev, present⟩, o, ordering⟩ := inv.core.rows r (Table.get_mem found)
  rw [Store.core_orderings] at ordering
  obtain ⟨e, row, _⟩ := Option.map_eq_some_iff.mp ordering
  cases move with
  | stay => exact absurd done due
  | settled settled => exact Or.inl settled
  | inactive inactive =>
    have same := congrArg Fields.endpointId sound.1
    simp only [Delivery.fields] at same
    rw [same, ← endpoint] at inactive
    exact absurd (active r e found row) (inactive e row)
  | deferWaiting dueAt => exact Or.inr (member sound.1)
  | deferGated dueAt => exact Or.inr (member sound.1)
  | schedule => exact Or.inr (member sound.1)
  | @vanished d e' missing =>
    have fields := sound.1.fields
    have eventId := congrArg Fields.eventId fields
    have endpointId := congrArg Fields.endpointId fields
    simp only [Delivery.fields] at eventId endpointId
    rcases missing with absent | delivered | absent | absent
    · exact absurd found (by simp [absent])
    · exact absurd (delivered ▸ settled_delivered) sound.2
    · rw [endpointId, ← endpoint, row] at absent
      cases absent
    · rw [eventId, ← event] at absent
      exact absurd present (by simp [absent])
  | @commitSettled d row' outcome e' committed =>
    left
    intro row'' now
    have key : f.deliveryId = d.id := (congrArg Fields.deliveryId sound.1.fields).symm
    rw [Core.delivery_commitDelivery, if_pos key] at now
    obtain ⟨_, _, rfl⟩ := Option.map_eq_some_iff.mp now
    exact flush_outcome sound
  | refresh | keep | toPop | pop | ack => exact absurd trivial due
  | load | queue | gate | pass | wait | commitDelivering | send | receive | commitFailed
  | giveUp => exact done.elim

/-- While the row is open, a carrier is kept or replaced by another one. -/
theorem Owed.step (owed : Owed env x id) (inv : Consistent env x) (excl' : Exclusive y)
    (covered : AllCovered env x)
    (undisturbed : Undisturbed id x l) (change : Change env x y l) (still : Open y id) :
    Owed env y id := by
  cases owed with
  | @entry n i f entry same unacked due =>
    have entry' : y.Entry n i f := change.entry entry
    by_cases discharged : ∃ w h, y.Handles w h ∧ y.shard w = n ∧ h.messageId = i ∧
        h.pc.session.Discharged
    · obtain ⟨w, h, handles, shard, messageId, done⟩ := discharged
      rw [change.shard w] at shard
      cases change.arises handles with
      | same old _ => exact absurd done (due w h old shard messageId)
      | begun _ _ begun =>
        subst begun
        exact done.elim
      | raised _ _ session _ =>
        rw [session] at done
        exact done.elim
      | @moved _ old _ handled _ move kept =>
        have before : ¬ old.pc.session.Discharged :=
          due w old handled shard (kept.1.symm.trans messageId)
        have mine : old.fields = f := by
          have own := handled.entry inv
          rw [shard, ← kept.1, messageId] at own
          exact own.unique entry
        rw [mine] at move
        rcases Move.discharges move inv (same ▸ undisturbed.active) (mine ▸ inv.known handled)
          (mine ▸ inv.sessions w old handled) before done with settled | ⟨m, present, key⟩
        · obtain ⟨row, found, openRow⟩ := still
          exact absurd (settled row (same ▸ found)) openRow
        · exact .member present (key.trans same)
    · refine .entry entry' same ?_ (fun w h handles shard messageId done =>
        discharged ⟨w, h, handles, shard, messageId, done⟩)
      rcases change.unacked unacked with kept | acks
      · exact kept
      · obtain ⟨w, _, h, _, handles, shard, messageId, session, _, _⟩ := acks.acker
        exact absurd (by rw [session]; trivial) (due w h handles shard messageId)
  | @member m retrying same =>
    cases change.leaves retrying with
    | kept present => exact .member present same
    | moved _ entry new => exact .of_new excl' change entry same new
    | @removed r _ q q' source rest _ running job goes next =>
      have zrem := covered r q running
      rw [job] at zrem
      obtain ⟨⟨replays, f, later, key⟩, _⟩ := zrem
      refine .request goes ?_
      rw [next]
      exact ⟨replays, f, later, key.trans same⟩
  | @request r q running adds =>
    cases change.proceeds running with
    | kept running => exact .request running adds
    | failed label _ _ =>
      obtain ⟨ingest, rfl⟩ := undisturbed.complete r q label running
      exact absurd adds (Ingest.not_adds ingest id)
    | @moved _ q' _ goes move =>
      generalize Request.job _ q = j at move adds
      generalize core : y.core = c at move
      generalize next : Request.job _ q' = j' at move
      cases move with
      | stay => exact .request goes (next ▸ adds)
      | @exec source command rest =>
        obtain ⟨replays, f, listed, same⟩ := adds
        rcases List.mem_cons.mp listed with rfl | later
        · obtain ⟨i, entry, new⟩ := entry_enqueueDelivery core
          exact .of_new excl' change entry same new
        · refine .request goes ?_
          rw [next]
          exact ⟨replays, f, later, same⟩
      | finish =>
        obtain ⟨_, f, listed, _⟩ := adds
        exact absurd listed List.not_mem_nil
      | _ => exact adds.elim

/-- Open deliveries that have been XADDed have a carrier. -/
def NoneLost (env : Env) (x : World) (id : Uuid) : Prop :=
  Open x id → x.Added id → Owed env x id

theorem NoneLost.step (kept : NoneLost env x id) (inv : Consistent env x)
    (inv' : Consistent env y) (excl' : Exclusive y)
    (covered : AllCovered env x) (undisturbed : Undisturbed id x l)
    (change : Change env x y l) : NoneLost env y id := by
  rintro still ⟨n, i, f, entry, key⟩
  by_cases new : ∀ g, ¬ x.Entry n i g
  · exact .of_new excl' change entry key new
  obtain ⟨g, before⟩ : ∃ g, x.Entry n i g := by simpa using new
  have same : g = f := Entry.unique (x := y) (change.entry before) entry
  subst same
  have held : ∀ {w : Nat} {h h' : Handling}, x.Handles w h → y.Handles w h' →
      h'.fields = h.fields → h.fields.deliveryId = id → ¬ h'.pc.session.Discharged →
      Owed env y id := fun _ goes fields same due =>
    .of_handled inv' excl' goes (fields ▸ same) due
  -- whoever opens the row again is a carrier itself
  cases change.row inv id with
  | same same =>
    obtain ⟨row, found, fresh⟩ := still
    exact (kept ⟨row, same ▸ found, fresh⟩ ⟨n, i, g, before, key⟩).step inv excl' covered
      undisturbed change ⟨row, found, fresh⟩
  | @delivering _ _ h h' d _ e _ handles session own _ _ goes next entry =>
    have sound := inv.sessions _ _ handles
    rw [session] at sound
    have mine := (congrArg Fields.deliveryId sound.1.fields).symm.trans own
    exact held handles goes entry.2 mine (fun done => by rw [next] at done; exact done)
  | @outcome _ _ h h' d row outcome e delay _ handles session own found now goes next entry =>
    have sound := inv.sessions _ _ handles
    rw [session] at sound
    have mine := (congrArg Fields.deliveryId sound.1.fields).symm.trans own
    rcases next with ⟨rfl, _⟩ | ⟨seconds, rfl, next⟩
    · obtain ⟨row', found', fresh⟩ := still
      rw [now] at found'
      cases found'
      exact absurd (flush_outcome sound) fresh
    · exact held handles goes entry.2 mine (fun done => by rw [next] at done; exact done)
  | requeued _ _ _ listed _ _ goes next issued =>
    exact .request goes (next ▸ issued.adds listed)
  | inserted absent =>
    obtain ⟨row, found, _⟩ := (inv.core.entries n g (List.mem_of_getElem? before)).1.row
    rw [key, absent] at found
    cases found

/-- In every state of an undisturbed run a delivery that has been XADDed and is
not settled has a carrier. -/
theorem no_lost_delivery {shardOf : Nat → Nat} {row : Delivery}
    (run : Run (World.step env) (Undisturbed id) (initial shardOf) x)
    (found : x.store.db.delivery id = some row) (fresh : ¬ row.status.Settled)
    (added : x.Added id) : Carried env x id := by
  have invariant : Consistent env x ∧ Exclusive x ∧ AllCovered env x ∧ NoneLost env x id := by
    refine run.invariant
      (I := fun x => Consistent env x ∧ Exclusive x ∧ AllCovered env x ∧
        NoneLost env x id) ?_ ?_
    · refine ⟨consistent_initial env shardOf, exclusive_initial shardOf, fun _ _ h => ?_, ?_⟩
      · cases h
      · rintro ⟨_, none_found, _⟩
        cases none_found
    · rintro x l y ⟨inv, excl, covered, kept⟩ undisturbed next
      have change := step_change next
      have excl' := excl.step undisturbed.released change
      have inv' := inv.step change
      exact ⟨inv', excl', covered.step change,
        kept.step inv inv' excl' covered undisturbed change⟩
  exact (invariant.2.2.2 ⟨row, found, fresh⟩ added).carried

/-! A worker that crashes before it schedules the retry -/

/-- The failed attempt is committed, and nothing else. -/
def crashedBeforeRetry : List Label :=
  ingested shop 10 11 ++ [.read 0, .take 0] ++ works 0 14 erring ++ [.crash 0]

def undisturbed (id : Uuid) (x : World) (l : Label) : Bool :=
  (match l with
    | .claim _ _ | .fail _ => false
    | _ => true) &&
    (x.store.db.delivery id).elim true (fun row =>
      (x.store.db.endpoint row.endpointId).elim true (fun e => decide (e.status = .active)))

theorem undisturbed_sound (checked : undisturbed id x l = true) : Undisturbed id x l := by
  obtain ⟨label, active⟩ := Bool.and_eq_true_iff.mp checked
  refine ⟨?_, ?_, fun row e found found' => ?_⟩
  · rintro w ids rfl
    cases label
  · rintro r q rfl
    cases label
  · simpa [found, found'] using active

/-- The row says failed, no retry is scheduled, and the entry is still pending. -/
theorem no_lost_delivery_crashed : ∃ x row,
    Run (World.step headerless) (Undisturbed 11) (initial (fun _ => 3)) x ∧
      x.store.db.delivery 11 = some row ∧ row.status = .failed ∧ Carried headerless x 11 := by
  have evaluates : (exec (World.step headerless) (undisturbed 11) crashedBeforeRetry
      (initial (fun _ => 3))).elim false (fun x =>
        decide ((x.store.db.delivery 11).map Delivery.status = some .failed ∧
          (x.store.queues.streams 3).entries[0]? = some ⟨11, 10, 1⟩)) = true := by
    decide +kernel
  obtain ⟨x, executed, passes⟩ := reached evaluates
  obtain ⟨status, entry⟩ := of_decide_eq_true passes
  obtain ⟨row, found, failed⟩ := Option.map_eq_some_iff.mp status
  have sound : ∀ {x l}, Untouched 1 1 x → Within 1 1 l = true → undisturbed 11 x l = true →
      Undisturbed 11 x l := fun _ _ => undisturbed_sound
  have run := (schedule_run (untouched_initial 1 1 _) (by decide) sound executed).1
  have added : x.Added 11 := ⟨3, 0, ⟨11, 10, 1⟩, entry, rfl⟩
  exact ⟨x, row, run, found, failed,
    no_lost_delivery run found (failed ▸ not_settled_failed) added⟩

end World

end Relay
