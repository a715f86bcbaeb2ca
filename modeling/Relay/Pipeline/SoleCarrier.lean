import Relay.Pipeline.Carriers
import Relay.Pipeline.FanOut

/-!
# One carrier at a time

Without replays a delivery is carried by the XADD that its ingestion still owes,
by a member of the retry set, or by an entry whose handling has not passed it on.
Every step hands the delivery from one carrier to the next, except that a worker
which lets go of an entry after passing it on leaves a second carrier behind.
-/

namespace Relay

open Enqueue RetryQueue Worker Api

/-- What will bring a delivery to a worker. -/
inductive Carrier where
  | promise (r : Nat)
  | member (m : Member) (dueAt : ℚ)
  | entry (n i : Nat)

/-- The next call adds this member; a deferral chooses any score. -/
def Worker.Session.Retries (env : Env) (m : Member) (dueAt : ℚ) : Session → Prop
  | .waiting d e | .gated d e => m = retryMember env d e
  | .scheduling d e due => m = retryMember env d e ∧ dueAt = due
  | _ => False

theorem Worker.Session.Retries.due {env : Env} {m : Member} {dueAt : ℚ} {q : Session}
    (retries : q.Retries env m dueAt) : ¬ q.Discharged ∧ q ≠ .leaving false := by
  cases q with
  | waiting | gated | scheduling => exact ⟨fun done => done, fun same => by cases same⟩
  | _ => exact retries.elim

theorem Worker.Session.Retries.member {env : Env} {m : Member} {dueAt : ℚ} {q : Session}
    {c : Core} {f : Fields} (retries : q.Retries env m dueAt) (sound : q.Sound c f) :
    m.fields = f := by
  cases q with
  | waiting | gated =>
    subst retries
    exact sound.1.member env
  | scheduling =>
    obtain ⟨rfl, _⟩ := retries
    exact sound.1.member env
  | _ => exact retries.elim

/-- Once an entry is done with, its handling only goes on to acknowledge it. -/
theorem Worker.Move.stays_discharged {env : Env} {clock : ℚ} {shard messageId : Nat} {id : Uuid}
    {s : Store} {q q' : Session} {c : Core} (move : Move env clock shard messageId id s q c q')
    (done : q.Discharged) : q'.Discharged ∨
      (q' = .finished ∧ c = s.core.onStream shard (fun log => log.xack messageId)) := by
  cases move with
  | stay => exact Or.inl done
  | refresh | keep | toPop | pop => exact Or.inl trivial
  | ack => exact Or.inr ⟨rfl, rfl⟩
  | _ => exact done.elim

namespace World

variable {env : Env} {l : Label} {x y : World} {id : Uuid}

/-- A handling of the entry goes on to acknowledge it. -/
def Done (x : World) (n i : Nat) : Prop :=
  ∃ w h, x.Handles w h ∧ x.shard w = n ∧ h.messageId = i ∧ h.pc.session.Discharged

def Carries (x : World) (id : Uuid) : Carrier → Prop
  | .promise r => ∃ f, Command.xadd f ∈ x.left r ∧ f.deliveryId = id
  | .member m dueAt => (m, dueAt) ∈ x.core.queues.retries.entries ∧ m.deliveryId = id
  | .entry n i => ∃ f, x.Entry n i f ∧ f.deliveryId = id ∧ x.Unacked n i ∧ ¬ x.Done n i

/-- No delivery has two carriers. -/
def Sole (x : World) : Prop := ∀ id c c', x.Carries id c → x.Carries id c' → c = c'

/-- There are no replays and no approvals. -/
def OnlyIngests (x : World) : Prop := ∀ r q, x.requests r = some q → ∃ q', q = .ingest q'

/-! Requests -/

theorem left_of_requests (requests : y.requests = x.requests) (r : Nat) :
    (y.left r).Sublist (x.left r) := by
  unfold left
  rw [requests]

theorem left_update_ne {r r' : Nat} {q : Request} (ne : r' ≠ r)
    (requests : y.requests = Function.update x.requests r (some q)) : y.left r' = x.left r' := by
  simp only [left, requests, Function.update_of_ne ne]

theorem left_update_self {r : Nat} {q : Ingest}
    (requests : y.requests = Function.update x.requests r (some (.ingest q))) :
    y.left r = q.left := left_of_ingest (by rw [requests, Function.update_self])

/-- A request that owes no more than the one before it in its slot. -/
theorem left_update {r : Nat} {q : Ingest} (sub : q.left.Sublist (x.left r))
    (requests : y.requests = Function.update x.requests r (some (.ingest q))) (r' : Nat) :
    (y.left r').Sublist (x.left r') := by
  by_cases mine : r' = r
  · subst mine
    exact left_update_self requests ▸ sub
  · exact left_update_ne mine requests ▸ List.Sublist.refl _

/-- What a step without replays does to the carriers of all deliveries. -/
inductive Transports (env : Env) (x y : World) (l : Label) : Prop
  | none (left : ∀ r, (y.left r).Sublist (x.left r))
      (retries : ∀ e ∈ y.core.queues.retries.entries, e ∈ x.core.queues.retries.entries)
      (entries : ∀ n, (y.core.queues.streams n).entries = (x.core.queues.streams n).entries)
  | retry {w : Nat} {c : Choice} {h h' : Handling} {m : Member} {dueAt : ℚ}
      (label : l = .work w c) (handles : x.Handles w h)
      (session : h.pc.session.Retries env m dueAt)
      (left : ∀ r, (y.left r).Sublist (x.left r)) (core : y.core = x.core.scheduleRetry m dueAt)
      (goes : y.Handles w h') (entry : h'.messageId = h.messageId)
      (done : h'.pc.session.Discharged)
  | move {now : ℚ} {limit : Nat} (label : l = .schedule now limit)
      (left : ∀ r, (y.left r).Sublist (x.left r))
        (core : y.core = x.core.moveDueToStreams now limit)
  | append {r : Nat} {ids : List Uuid} {f : Fields} {rest : List Command}
      (label : l = .serve r ids) (running : x.left r = .xadd f :: rest) (goes : y.left r = rest)
      (others : ∀ r', r' ≠ r → y.left r' = x.left r')
      (core : y.core = x.core.enqueueDelivery env.settings.streamShards .ingest f)
  | commit {r : Nat} {ids : List Uuid} {q : Ingest} {event : Event} {endpoints : List Endpoint}
      {deliveries : List Delivery} (label : l = .serve r ids)
      (running : x.requests r = some (.ingest q)) (pc : q.pc = .commit event endpoints deliveries)
      (goes : y.left r = Ingest.commands endpoints deliveries)
      (others : ∀ r', r' ≠ r → y.left r' = x.left r')
      (core : y.core = x.core.commitEvent event deliveries)

theorem Transports.of_queues (queues : y.core.queues = x.core.queues)
    (left : ∀ r, (y.left r).Sublist (x.left r)) : Transports env x y l :=
  .none left (fun _ listed => queues ▸ listed) (fun n => by rw [queues])

theorem step_transports (only : OnlyIngests x) (stepped : World.step env l x = some y) :
    Transports env x y l := by
  have change := step_change stepped
  cases change with
  | admin _ _ _ _ core _ requests =>
    exact .of_queues (congrArg Core.queues core :) (left_of_requests requests)
  | take _ _ _ core _ requests | raise _ _ core _ requests | drop _ _ core _ _ _ requests =>
    exact .of_queues (congrArg Core.queues core :) (left_of_requests requests)
  | read _ _ _ core _ requests =>
    refine .none (left_of_requests requests) (fun e listed => ?_) (fun n => ?_)
    · rw [core] at listed
      exact listed
    · rw [core, streams_onStream]
      split
      · exact StreamLog.xreadgroup_entries _ _ _
      · rfl
  | claim _ _ _ _ _ core _ requests =>
    refine .none (left_of_requests requests) (fun e listed => ?_) (fun n => ?_)
    · rw [core] at listed
      exact listed
    · rw [core, streams_onStream]
      split
      · exact StreamLog.xclaim_entries _ _ _ _
      · rfl
  | schedule _ core _ requests => exact .move rfl (left_of_requests requests) core
  | @work w c h pc _ handles _ move workers requests =>
    have left := left_of_requests requests
    have goes : pc.session ≠ .finished → y.Handles w { h with pc := pc } :=
      fun running => goto_handles running workers
    generalize session : h.pc.session = q at move
    generalize core : y.core = c' at move
    generalize next : pc.session = q' at move goes
    cases move with
    | deferWaiting dueAt | deferGated dueAt =>
      refine .retry rfl handles ?_ left core (goes (by simp)) rfl ?_
      · rw [session]
        exact rfl
      · change pc.session.Discharged
        rw [next]
        trivial
    | schedule =>
      refine .retry rfl handles ?_ left core (goes (by simp)) rfl ?_
      · rw [session]
        exact ⟨rfl, rfl⟩
      · change pc.session.Discharged
        rw [next]
        trivial
    | ack =>
      refine .none left (fun e listed => ?_) (fun n => ?_)
      · rw [core] at listed
        exact listed
      · rw [core, streams_onStream]
        split
        · exact StreamLog.xack_entries _ _
        · rfl
    | _ => exact .of_queues (congrArg Core.queues core :) left
  | @arrive r call _ core _ free requests =>
    refine .of_queues (congrArg Core.queues core :) (fun r' => ?_)
    by_cases mine : r' = r
    · subst mine
      have none : y.left r' = [] := by
        unfold World.left
        rw [requests, Function.update_self]
        cases call with
        | ingest tenantId body =>
          by_cases keyed : body.idempotencyKey.isSome = true <;>
            simp [Call.start, Ingest.left, Ingest.start, keyed]
        | replay | approve => rfl
      exact none ▸ List.nil_sublist _
    · exact left_update_ne mine requests ▸ List.Sublist.refl _
  | @fail r q q' _ running core ended _ requests =>
    refine .of_queues (congrArg Core.queues core :) (fun r' => ?_)
    by_cases mine : r' = r
    · subst mine
      have none : y.left r' = [] := by
        unfold World.left
        rw [requests, Function.update_self]
        cases q' with
        | ingest q' => cases pc : q'.pc <;> simp_all [Request.job, Ingest.job, Ingest.left]
        | replay | approve => rfl
      exact none ▸ List.nil_sublist _
    · exact left_update_ne mine requests ▸ List.Sublist.refl _
  | @serve r ids q _ _ running _ _ _ =>
    obtain ⟨q, rfl⟩ := only r q running
    cases step_ingests stepped with
    | none _ other _ => exact absurd running (other r ids q rfl)
    | arrive label => cases label
    | fail label => cases label
    | serve label running' next requests =>
      cases label
      rw [running] at running'
      cases running'
      have before := left_of_ingest running
      obtain ⟨pc', rfl, steps⟩ := Ingest.step_steps next
      generalize store : y.store = s at steps
      have core : y.core = s.core := congrArg Store.core store
      have silent : Ingest.left { q with pc := pc' } = [] →
          ∀ r', (y.left r').Sublist (x.left r') := fun none =>
        left_update (none ▸ List.nil_sublist _) requests
      cases steps with
      | found | missing | taken | conflict | finish =>
        exact .of_queues (congrArg Core.queues core :) (silent rfl)
      | insert =>
        rw [Ingest.core_insert] at core
        exact .of_queues (congrArg Core.queues core :) (silent rfl)
      | rollback =>
        rw [Ingest.core_abandon] at core
        exact .of_queues (congrArg Core.queues core :) (silent rfl)
      | commit pc =>
        rw [Ingest.core_commitEvent] at core
        exact .commit rfl running pc (left_update_self requests)
          (fun r' ne => left_update_ne ne requests) core
      | @exec id c rest pc =>
        rw [Store.core_exec] at core
        simp only [Ingest.left, pc] at before
        have shorter : ∀ r', (y.left r').Sublist (x.left r') := by
          refine left_update ?_ requests
          rw [before]
          exact List.sublist_cons_self _ _
        cases c with
        | zrem m =>
          refine .none shorter (fun e listed => ?_) (fun n => ?_)
          · rw [core] at listed
            exact (ZSet.mem_entries_zrem.mp listed).1
          · rw [core]
            rfl
        | rpush => exact .of_queues (congrArg Core.queues core :) shorter
        | xadd f =>
          exact .append rfl before (left_update_self requests)
            (fun r' ne => left_update_ne ne requests) core

theorem OnlyIngests.step (only : OnlyIngests x)
    (arrivals : ∀ r call, l = .arrive r call → ∃ tenantId body, call = .ingest tenantId body)
    (h : World.step env l x = some y) : OnlyIngests y := by
  have updated : ∀ {r : Nat} {q : Ingest},
      y.requests = Function.update x.requests r (some (.ingest q)) → OnlyIngests y := by
    intro r q requests r' q' running
    by_cases mine : r' = r
    · subst mine
      rw [requests, Function.update_self] at running
      exact ⟨q, (Option.some.inj running).symm⟩
    · rw [requests, Function.update_of_ne mine] at running
      exact only r' q' running
  cases step_ingests h with
  | arrive _ _ _ requests | serve _ _ _ requests | fail _ _ _ requests => exact updated requests
  | none _ other requests =>
    intro r q running
    cases (step_change h).serves running with
    | same old => exact only r q old
    | arrived label start =>
      obtain ⟨tenantId, body, rfl⟩ := arrivals r _ label
      exact ⟨_, start⟩
    | moved label old =>
      obtain ⟨q', rfl⟩ := only r _ old
      exact absurd old (other r _ q' label)
    | failed _ old =>
      obtain ⟨q', rfl⟩ := only r _ old
      rw [(requests r q').mpr old] at running
      exact ⟨q', (Option.some.inj running).symm⟩

/-! From one carrier to the next -/

/-- When a worker lets go of an entry, nothing else carries the delivery. -/
def LeavesSole (x : World) (l : Label) : Prop :=
  ∀ w h c, l = .crash w ∨ l = .raise w → x.Handles w h → x.Carries h.fields.deliveryId c →
    c = .entry (x.shard w) h.messageId

/-- The step ends a handling that has passed the delivery on. -/
structure Reopens (x : World) (l : Label) (id : Uuid) (w : Nat) (h : Handling) : Prop where
  label : l = .crash w ∨ l = .raise w
  handles : x.Handles w h
  same : h.fields.deliveryId = id
  done : h.pc.session.Discharged

inductive Passes (env : Env) (x : World) (l : Label) : Carrier → Carrier → Prop
  | append {r n i : Nat} : Passes env x l (.promise r) (.entry n i)
  | retry {w : Nat} {c : Choice} {h : Handling} {m : Member} {dueAt : ℚ} (label : l = .work w c)
      (handles : x.Handles w h) (session : h.pc.session.Retries env m dueAt) :
      Passes env x l (.entry (x.shard w) h.messageId) (.member m dueAt)
  | move {now dueAt : ℚ} {limit n i : Nat} {m : Member} (label : l = .schedule now limit)
      (due : dueAt ≤ now) : Passes env x l (.member m dueAt) (.entry n i)

/-- The carriers of one delivery before and after a step. -/
inductive Passage (env : Env) (x y : World) (l : Label) (id : Uuid) : Prop
  | kept (back : ∀ a, y.Carries id a → x.Carries id a)
  | passed {c c' : Carrier} (old : x.Carries id c) (gone : ¬ y.Carries id c)
      (back : ∀ a, y.Carries id a → x.Carries id a ∨ a = c') (passes : Passes env x l c c')
  | committed {r : Nat} (absent : x.core.delivery id = none) (none : ∀ a, ¬ x.Carries id a)
      (back : ∀ a, y.Carries id a → a = .promise r)
  | reopened {w : Nat} {h : Handling} (reopens : Reopens x l id w h)
      (none : ∀ a, ¬ x.Carries id a)
      (back : ∀ a, y.Carries id a → a = .entry (x.shard w) h.messageId)

theorem Reopens.unique {w w' : Nat} {h h' : Handling} (first : Reopens x l id w h)
    (second : Reopens x l id w' h') : w' = w ∧ h' = h := by
  have same : w' = w := by
    rcases first.label with label | label <;> rcases second.label with label' | label' <;>
      rw [label] at label' <;> cases label' <;> rfl
  subst same
  exact ⟨rfl, Option.some.inj (second.handles.symm.trans first.handles)⟩

theorem Change.unacked_back (change : Change env x y l) {n i : Nat} {f : Fields}
    (entry : x.Entry n i f) (unacked : y.Unacked n i) : x.Unacked n i := by
  unfold Unacked at unacked ⊢
  cases change.grows n with
  | same same => rwa [same] at unacked
  | added last same =>
    rcases unacked with unread | pending
    · exact Or.inl ⟨last ▸ unread.1, (List.getElem?_eq_some_iff.mp entry).1⟩
    · right
      unfold StreamLog.IsPending at pending ⊢
      rwa [same] at pending
  | read _ _ _ now => exact (StreamLog.unacked_xreadgroup _ _ _ _).mp (now ▸ unacked)
  | claim _ _ now => exact (StreamLog.unacked_xclaim _ _ _ _ _).mp (now ▸ unacked)
  | @ack acked _ now =>
    rw [now] at unacked
    rcases unacked with unread | pending
    · exact Or.inl unread
    · exact Or.inr ((StreamLog.isPending_xack _ _ _).mp pending).1

/-- An entry that is done with stays so, or is acknowledged, or is let go. -/
theorem Change.done_kept (excl : Exclusive x) (change : Change env x y l) {w i : Nat}
    {h : Handling} (handles : x.Handles w h) (message : h.messageId = i)
    (done : h.pc.session.Discharged) (unacked : y.Unacked (x.shard w) i)
    (keeps : ¬ (l = .crash w ∨ l = .raise w)) : y.Done (x.shard w) i := by
  obtain ⟨crash, raise⟩ := not_or.mp keeps
  by_cases working : ∃ c, l = .work w c
  · obtain ⟨c, rfl⟩ := working
    cases change with
    | admin label => exact label.elim
    | drop label => rcases label with same | same <;> cases same
    | @work _ _ _ pc _ handled step move workers requests =>
      have change : Change env x y (.work w c) := .work ‹_› handled step move workers requests
      cases handled.symm.trans handles
      rcases move.stays_discharged done with still | ⟨_, core⟩
      · refine ⟨w, _, goto_handles (fun ended => ?_) workers, change.shard w, message, still⟩
        rw [ended] at still
        exact still
      · have pending : (x.core.queues.streams (x.shard w)).IsPending h.messageId :=
          excl.pending w _ handles.holds
        unfold Unacked at unacked
        rw [core, streams_onStream, if_pos rfl, ← message] at unacked
        exact absurd unacked (StreamLog.not_unacked_xack pending)
  · have still := change.handles_kept handles (fun c same => working ⟨c, same⟩) raise crash
    exact ⟨w, h, still, change.shard w, message, done⟩

/-- An entry of old carries what it carried, unless it is let go. -/
theorem Change.carries_entry (inv : Consistent env x) (excl : Exclusive x)
    (change : Change env x y l) {n i : Nat} {f : Fields} (entry : x.Entry n i f)
    (carries : y.Carries id (.entry n i)) : x.Carries id (.entry n i) ∨
      ∃ w h, Reopens x l id w h ∧ x.shard w = n ∧ h.messageId = i := by
  obtain ⟨f', entry', same, unacked, pending⟩ := carries
  cases Entry.unique entry' (change.entry entry)
  by_cases done : x.Done n i
  · obtain ⟨w, h, handles, rfl, message, discharged⟩ := done
    have mine : h.fields = f := (message ▸ handles.entry inv).unique entry
    by_cases letGo : l = .crash w ∨ l = .raise w
    · exact Or.inr ⟨w, h, ⟨letGo, handles, mine ▸ same, discharged⟩, rfl, message⟩
    · exact absurd (change.done_kept excl handles message discharged unacked letGo) pending
  · exact Or.inl ⟨f, entry, same, change.unacked_back entry unacked, done⟩

theorem Consistent.listing_unique (inv : Consistent env x) {f g : Fields}
    (listed : f ∈ x.core.listing) (listed' : g ∈ x.core.listing)
    (same : f.deliveryId = g.deliveryId) : f = g := by
  obtain ⟨d, row, rfl⟩ := List.mem_map.mp listed
  obtain ⟨d', row', rfl⟩ := List.mem_map.mp listed'
  exact congrArg Delivery.fields (List.inj_on_of_nodup_map inv.allocated.deliveries row row' same)

/-- What holds in every run without replays. -/
structure Ingesting (env : Env) (x : World) : Prop where
  inv : Consistent env x
  excl : Exclusive x
  tracked : Tracked x
  once : AppendsOnce x
  only : OnlyIngests x
  sole : Sole x

namespace Ingesting

theorem row (held : Ingesting env x) {c : Carrier} (carries : x.Carries id c) :
    ∃ row, x.core.delivery id = some row := by
  cases c with
  | promise r =>
    obtain ⟨f, listed, rfl⟩ := carries
    obtain ⟨d, row, rfl⟩ := List.mem_map.mp (held.tracked.left listed).1
    exact ⟨d, held.inv.allocated.delivery row⟩
  | member m dueAt =>
    obtain ⟨listed, rfl⟩ := carries
    obtain ⟨r, found, _⟩ :=
      (held.inv.core.members m (ZSet.mem_iff.mpr ⟨dueAt, listed⟩)).1.row
    exact ⟨r, found⟩
  | entry n i =>
    obtain ⟨f, entry, rfl, _⟩ := carries
    obtain ⟨r, found, _⟩ := (held.inv.core.entries n f (List.mem_of_getElem? entry)).1.row
    exact ⟨r, found⟩

/-- The entry of a handling that has not passed it on. -/
theorem carries (held : Ingesting env x) {w : Nat} {h : Handling} (handles : x.Handles w h)
    (due : ¬ h.pc.session.Discharged) :
    x.Carries h.fields.deliveryId (.entry (x.shard w) h.messageId) := by
  refine ⟨h.fields, handles.entry held.inv, rfl, handles.unacked held.excl, ?_⟩
  rintro ⟨w', h', handles', shard, message, done⟩
  rw [(held.excl.handler handles handles' shard message).2] at done
  exact due done

/-- Outside of crashes and exceptions old entries carry no more than before. -/
theorem carries_entry (held : Ingesting env x) (change : Change env x y l)
    (keeps : ∀ w, l ≠ .crash w ∧ l ≠ .raise w) {n i : Nat} {f : Fields}
    (entry : x.Entry n i f)
    (carries : y.Carries id (.entry n i)) : x.Carries id (.entry n i) := by
  rcases change.carries_entry held.inv held.excl entry carries with old | ⟨w, _, reopens, _⟩
  · exact old
  · rcases reopens.label with label | label
    · exact absurd label (keeps w).1
    · exact absurd label (keeps w).2

/-- Nothing is appended: only a worker that lets go opens a carrier. -/
theorem passage_none (held : Ingesting env x) (change : Change env x y l)
    (leaves : LeavesSole x l) (left : ∀ r, (y.left r).Sublist (x.left r))
    (retries : ∀ e ∈ y.core.queues.retries.entries, e ∈ x.core.queues.retries.entries)
    (entries : ∀ n, (y.core.queues.streams n).entries = (x.core.queues.streams n).entries) :
    Passage env x y l id := by
  have old : ∀ a, y.Carries id a → x.Carries id a ∨
      ∃ w h, Reopens x l id w h ∧ a = .entry (x.shard w) h.messageId := by
    intro a carries
    cases a with
    | promise r =>
      obtain ⟨f, listed, same⟩ := carries
      exact Or.inl ⟨f, (left r).subset listed, same⟩
    | member m dueAt => exact Or.inl ⟨retries _ carries.1, carries.2⟩
    | entry n i =>
      have carries' := carries
      obtain ⟨f, entry, _⟩ := carries'
      have before : x.Entry n i f := by
        unfold Entry at entry ⊢
        rwa [entries n] at entry
      refine (change.carries_entry held.inv held.excl before carries).imp_right ?_
      rintro ⟨w, h, reopens, rfl, rfl⟩
      exact ⟨w, h, reopens, rfl⟩
  by_cases reopened : ∃ w h, Reopens x l id w h
  · obtain ⟨w, h, reopens⟩ := reopened
    have none : ∀ a, ¬ x.Carries id a := by
      intro a carries
      have own := leaves w h a reopens.label reopens.handles (reopens.same ▸ carries)
      subst own
      obtain ⟨_, _, _, _, pending⟩ := carries
      exact pending ⟨w, h, reopens.handles, rfl, rfl, reopens.done⟩
    refine .reopened reopens none (fun a carries => ?_)
    rcases old a carries with before | ⟨w', h', again, rfl⟩
    · exact absurd before (none a)
    · obtain ⟨rfl, rfl⟩ := reopens.unique again
      rfl
  · refine .kept (fun a carries => (old a carries).resolve_right ?_)
    rintro ⟨w, h, reopens, _⟩
    exact reopened ⟨w, h, reopens⟩

/-- The entry that is handled becomes a member. -/
theorem passage_retry (held : Ingesting env x) {w : Nat} {c : Choice} {h h' : Handling}
    {m : Member} {dueAt : ℚ} (change : Change env x y (.work w c)) (handles : x.Handles w h)
    (session : h.pc.session.Retries env m dueAt) (left : ∀ r, (y.left r).Sublist (x.left r))
    (core : y.core = x.core.scheduleRetry m dueAt) (goes : y.Handles w h')
    (entry : h'.messageId = h.messageId) (done : h'.pc.session.Discharged) :
    Passage env x y (.work w c) id := by
  have fields : m.fields = h.fields := session.member (held.inv.sessions w h handles)
  have old : ∀ a, y.Carries id a → x.Carries id a ∨
      (a = .member m dueAt ∧ m.deliveryId = id) := by
    intro a carries
    cases a with
    | promise r =>
      obtain ⟨f, listed, same⟩ := carries
      exact Or.inl ⟨f, (left r).subset listed, same⟩
    | member m' dueAt' =>
      obtain ⟨listed, same⟩ := carries
      rw [core] at listed
      rcases ZSet.mem_entries_zadd.mp listed with ⟨before, _⟩ | new
      · exact Or.inl ⟨before, same⟩
      · cases new
        exact Or.inr ⟨rfl, same⟩
    | entry n i =>
      have carries' := carries
      obtain ⟨f, entry', _⟩ := carries'
      have before : x.Entry n i f := by
        unfold Entry at entry' ⊢
        rwa [core] at entry'
      exact Or.inl (held.carries_entry change (fun w' => ⟨by simp, by simp⟩) before carries)
  by_cases mine : h.fields.deliveryId = id
  · have carried : x.Carries id (.entry (x.shard w) h.messageId) :=
      mine ▸ held.carries handles session.due.1
    refine .passed carried ?_ (fun a carries => ?_) (.retry rfl handles session)
    · rintro ⟨_, _, _, _, pending⟩
      exact pending ⟨w, h', goes, change.shard w, entry, done⟩
    · exact (old a carries).imp_right And.left
  · refine .kept (fun a carries => (old a carries).resolve_right ?_)
    rintro ⟨_, same⟩
    exact mine ((congrArg Fields.deliveryId fields).symm.trans same)

/-- The entry that a promised XADD appends. -/
theorem passage_append (held : Ingesting env x) {r : Nat} {ids : List Uuid} {f : Fields}
    {rest : List Command} (change : Change env x y (.serve r ids))
    (running : x.left r = .xadd f :: rest) (goes : y.left r = rest)
    (others : ∀ r', r' ≠ r → y.left r' = x.left r')
    (core : y.core = x.core.enqueueDelivery env.settings.streamShards .ingest f) :
    Passage env x y (.serve r ids) id := by
  have own : Command.xadd f ∈ x.left r := running ▸ List.mem_cons_self
  have old : ∀ a, y.Carries id a → x.Carries id a ∨ (f.deliveryId = id ∧
      a = .entry (shardFor env.settings.streamShards f.endpointId)
        (x.core.queues.streams
          (shardFor env.settings.streamShards f.endpointId)).entries.length) := by
    intro a carries
    cases a with
    | promise r' =>
      obtain ⟨g, listed, same⟩ := carries
      left
      by_cases mine : r' = r
      · subst mine
        rw [goes] at listed
        exact ⟨g, running ▸ List.mem_cons_of_mem _ listed, same⟩
      · exact ⟨g, others r' mine ▸ listed, same⟩
    | member m dueAt =>
      obtain ⟨listed, same⟩ := carries
      rw [core] at listed
      exact Or.inl ⟨listed, same⟩
    | entry n i =>
      have carries' := carries
      obtain ⟨g, entry, same, _⟩ := carries'
      by_cases new : ∀ g', ¬ x.Entry n i g'
      · right
        unfold Entry at entry new
        rw [core] at entry
        simp only [Core.enqueueDelivery, Queues.xadd_streams] at entry
        split at entry
        · rename_i shard
          subst shard
          rw [StreamLog.xadd_entries, List.getElem?_append] at entry
          split at entry
          · exact absurd entry (new g)
          · rename_i beyond
            rw [List.getElem?_singleton] at entry
            split at entry
            · rename_i last
              cases entry
              refine ⟨same, ?_⟩
              congr 1
              omega
            · cases entry
        · exact absurd entry (new g)
      · obtain ⟨g', before⟩ : ∃ g', x.Entry n i g' := by simpa using new
        exact Or.inl (held.carries_entry change (fun w => ⟨by simp, by simp⟩) before carries)
  by_cases mine : f.deliveryId = id
  · refine .passed (c := .promise r) ⟨f, own, mine⟩ ?_
      (fun a carries => (old a carries).imp_right And.right) .append
    -- the request owes this entry once
    rintro ⟨g, listed, same⟩
    rw [goes] at listed
    have owed : Command.xadd g ∈ x.left r := running ▸ List.mem_cons_of_mem _ listed
    have equal : g = f := held.inv.listing_unique (held.tracked.left owed).1
      (held.tracked.left own).1 (same.trans mine.symm)
    have count := held.once.once r f
    rw [running, List.count_cons_self] at count
    have positive := List.count_pos_iff.mpr (equal ▸ listed)
    omega
  · exact .kept (fun a carries => (old a carries).resolve_right (fun new => mine new.1))

/-- The commit of a fan-out promises an entry for every new row. -/
theorem passage_commit (held : Ingesting env x) {r : Nat} {ids : List Uuid} {q : Ingest}
    {event : Event} {endpoints : List Endpoint} {deliveries : List Delivery}
    (change : Change env x y (.serve r ids)) (running : x.requests r = some (.ingest q))
    (pc : q.pc = .commit event endpoints deliveries)
    (goes : y.left r = Ingest.commands endpoints deliveries)
    (others : ∀ r', r' ≠ r → y.left r' = x.left r')
    (core : y.core = x.core.commitEvent event deliveries) :
    Passage env x y (.serve r ids) id := by
  have old : ∀ a, y.Carries id a → x.Carries id a ∨
      (a = .promise r ∧ ∃ d ∈ deliveries, d.id = id) := by
    intro a carries
    cases a with
    | promise r' =>
      obtain ⟨g, listed, same⟩ := carries
      by_cases mine : r' = r
      · subst mine
        rw [goes] at listed
        obtain ⟨d, member, rfl⟩ := Ingest.mem_commands.mp listed
        exact Or.inr ⟨rfl, d, member, same⟩
      · exact Or.inl ⟨g, others r' mine ▸ listed, same⟩
    | member m dueAt =>
      obtain ⟨listed, same⟩ := carries
      rw [core] at listed
      exact Or.inl ⟨listed, same⟩
    | entry n i =>
      have carries' := carries
      obtain ⟨g, entry, _⟩ := carries'
      have before : x.Entry n i g := by
        unfold Entry at entry ⊢
        rwa [core] at entry
      exact Or.inl (held.carries_entry change (fun w => ⟨by simp, by simp⟩) before carries)
  by_cases drawn : ∃ d ∈ deliveries, d.id = id
  · have absent : x.core.delivery id = none := by
      obtain ⟨d, member, rfl⟩ := drawn
      have fresh := held.inv.allocated.drawn r d.id
      rw [drawn_running env running] at fresh
      simp only [Request.job, Ingest.job, pc, Job.drawn] at fresh
      have unused := (fresh (List.mem_cons_of_mem _ (List.mem_map_of_mem member))).2
      exact Table.get_eq_none.mpr (fun taken => unused (List.mem_append_right _ taken))
    have none : ∀ a, ¬ x.Carries id a := by
      intro a carries
      obtain ⟨row, found⟩ := held.row carries
      rw [absent] at found
      cases found
    refine .committed (r := r) absent none (fun a carries => ?_)
    exact ((old a carries).resolve_left (none a)).1
  · exact .kept (fun a carries => (old a carries).resolve_right (fun new => drawn new.2))

/-- An entry that the script appends is that of a member which it takes. -/
theorem moved_entry {q q' : Queues} {now : ℚ} {limit n i : Nat} {moved : List (Member × ℚ)}
    (moves : Queues.Moves q now limit q' moved) {f : Fields}
    (entry : (q'.streams n).entries[i]? = some f) :
    (q.streams n).entries[i]? = some f ∨ ∃ k m,
      ((moved.map Prod.fst).filter (fun m => m.shard = n))[k]? = some m ∧ m.fields = f ∧
        i = (q.streams n).entries.length + k := by
  rw [moves.streams, StreamLog.entries_foldl_xadd, List.getElem?_append] at entry
  split at entry
  · exact Or.inl entry
  · rw [List.getElem?_map] at entry
    obtain ⟨m, listed, fields⟩ := Option.map_eq_some_iff.mp entry
    exact Or.inr ⟨_, m, listed, fields, by omega⟩

/-- A member that is due becomes an entry. -/
theorem passage_move (held : Ingesting env x) {now : ℚ} {limit : Nat}
    (change : Change env x y (.schedule now limit)) (left : ∀ r, (y.left r).Sublist (x.left r))
    (core : y.core = x.core.moveDueToStreams now limit) :
    Passage env x y (.schedule now limit) id := by
  have moves := x.core.queues.moves now limit
  generalize x.core.queues.retries.lowestUpTo memberLe now limit = moved at moves
  have queues : x.core.queues.moveDueToStreams now limit = y.core.queues :=
    (congrArg Core.queues core).symm
  rw [queues] at moves
  have kept : ∀ e ∈ y.core.queues.retries.entries,
      e ∈ x.core.queues.retries.entries ∧ e.1 ∉ moved.map Prod.fst := by
    intro e listed
    rw [moves.others, List.mem_filter] at listed
    exact ⟨listed.1, of_decide_eq_true listed.2⟩
  have old : ∀ a, y.Carries id a → x.Carries id a ∨ ∃ k m,
      ((moved.map Prod.fst).filter (fun a => a.shard = m.shard))[k]? = some m ∧
        m.deliveryId = id ∧
        a = .entry m.shard ((x.core.queues.streams m.shard).entries.length + k) := by
    intro a carries
    cases a with
    | promise r =>
      obtain ⟨f, listed, same⟩ := carries
      exact Or.inl ⟨f, (left r).subset listed, same⟩
    | member m dueAt => exact Or.inl ⟨(kept _ carries.1).1, carries.2⟩
    | entry n i =>
      have carries' := carries
      obtain ⟨f, entry, same, _⟩ := carries'
      rcases moved_entry moves entry with before | ⟨k, m, listed, rfl, rfl⟩
      · exact Or.inl (held.carries_entry change (fun w => ⟨by simp, by simp⟩) before carries)
      · right
        have shard : m.shard = n := by
          simpa using (List.mem_filter.mp (List.mem_of_getElem? listed)).2
        subst shard
        exact ⟨k, m, listed, same, rfl⟩
  by_cases due : ∃ e ∈ moved, e.1.deliveryId = id
  · obtain ⟨⟨m, dueAt⟩, taken, same⟩ := due
    have member : m ∈ (moved.map Prod.fst).filter (fun a => a.shard = m.shard) :=
      List.mem_filter.mpr ⟨List.mem_map_of_mem taken, by simp⟩
    obtain ⟨k, listed⟩ := List.mem_iff_getElem?.mp member
    have carried : x.Carries id (.member m dueAt) := ⟨(moves.due _ taken).1, same⟩
    refine .passed carried ?_ (fun a carries => (old a carries).imp_right ?_)
      (.move (n := m.shard) (i := (x.core.queues.streams m.shard).entries.length + k) rfl
        (moves.due _ taken).2)
    · rintro ⟨present, _⟩
      exact (kept _ present).2 (List.mem_map_of_mem taken)
    · -- the delivery has one member, and the script takes it once
      rintro ⟨k', m', listed', same', rfl⟩
      have taken' := (List.mem_filter.mp (List.mem_of_getElem? listed')).1
      obtain ⟨⟨a, dueAt'⟩, inside, rfl⟩ := List.mem_map.mp taken'
      have carried' : x.Carries id (.member a dueAt') := ⟨(moves.due _ inside).1, same'⟩
      cases held.sole id _ _ carried carried'
      have distinct := moves.distinct.filter (fun a => decide (a.shard = m.shard))
      have position : k' = k := by
        obtain ⟨bound, _⟩ := List.getElem?_eq_some_iff.mp listed'
        exact (List.getElem?_inj bound distinct).mp (listed'.trans listed.symm)
      rw [position]
  · refine .kept (fun a carries => (old a carries).resolve_right ?_)
    rintro ⟨k, m, listed, same, _⟩
    have taken := (List.mem_filter.mp (List.mem_of_getElem? listed)).1
    obtain ⟨e, inside, rfl⟩ := List.mem_map.mp taken
    exact due ⟨e, inside, same⟩

/-- Every step hands each delivery from one carrier to the next. -/
theorem passage (held : Ingesting env x) (leaves : LeavesSole x l)
    (stepped : World.step env l x = some y) (id : Uuid) : Passage env x y l id := by
  have change := step_change stepped
  cases step_transports held.only stepped with
  | none left retries entries => exact held.passage_none change leaves left retries entries
  | retry label handles session left core goes entry done =>
    subst label
    exact held.passage_retry change handles session left core goes entry done
  | move label left core =>
    subst label
    exact held.passage_move change left core
  | append label running goes others core =>
    subst label
    exact held.passage_append change running goes others core
  | commit label running pc goes others core =>
    subst label
    exact held.passage_commit change running pc goes others core

theorem sole_step (held : Ingesting env x) (leaves : LeavesSole x l)
    (stepped : World.step env l x = some y) : Sole y := by
  intro id a a' carries carries'
  cases held.passage leaves stepped id with
  | kept back => exact held.sole id a a' (back a carries) (back a' carries')
  | @passed _ next old gone back _ =>
    have moved : ∀ b, y.Carries id b → b = next := by
      intro b passed
      refine (back b passed).resolve_left (fun before => gone ?_)
      rwa [held.sole id _ b old before]
    exact (moved a carries).trans (moved a' carries').symm
  | committed _ _ back => exact (back a carries).trans (back a' carries').symm
  | reopened _ _ back => exact (back a carries).trans (back a' carries').symm

theorem step (held : Ingesting env x) (leaves : LeavesSole x l) (released : ClaimsReleased x l)
    (arrivals : ∀ r call, l = .arrive r call → ∃ tenantId body, call = .ingest tenantId body)
    (stepped : World.step env l x = some y) : Ingesting env y where
  inv := held.inv.step (step_change stepped)
  excl := held.excl.step released (step_change stepped)
  tracked := held.tracked.step held.inv stepped
  once := held.once.step held.tracked held.inv (step_appends stepped)
  only := held.only.step arrivals stepped
  sole := held.sole_step leaves stepped

end Ingesting

theorem ingesting_initial (env : Env) (shardOf : Nat → Nat) :
    Ingesting env (initial shardOf) where
  inv := consistent_initial env shardOf
  excl := exclusive_initial shardOf
  tracked := tracked_initial shardOf
  once := appendsOnce_initial shardOf
  only := by
    intro r q running
    cases running
  sole := by
    rintro id (r | ⟨m, dueAt⟩ | ⟨n, i⟩) c' carries
    · obtain ⟨f, listed, _⟩ := carries
      exact absurd listed List.not_mem_nil
    · exact absurd carries.1 List.not_mem_nil
    · obtain ⟨f, entry, _⟩ := carries
      cases entry

end World

end Relay
