import Relay.Pipeline.Audit
import Relay.Properties.Backoff

/-!
# A delivery in its rounds

The abstract life of one delivery. A round opens on a row that is not settled,
sends one request, and ends with a settled row or with one that has rounds left.
Without replays, and as long as no round is broken off, every step of the
pipeline is a step of this machine.
-/

namespace Relay

open Enqueue RetryQueue Worker Api Transition

/-- No round is under way, its request is about to be sent, or it was sent. -/
inductive Phase where
  | idle
  | sending
  | sent
  deriving DecidableEq

structure Round where
  row : Delivery
  attempts : Nat
  phase : Phase

namespace Round

variable {limit : Nat} {r r' : Round}

inductive Step (limit : Nat) (r : Round) : Round → Prop
  | stay : Step limit r r
  | opens (idle : r.phase = .idle) (unsettled : ¬ r.row.status.Settled) :
      Step limit r ⟨delivering r.row, r.attempts, .sending⟩
  | sends (sending : r.phase = .sending) : Step limit r ⟨r.row, r.attempts + 1, .sent⟩
  | settles {outcome : Delivery} (sent : r.phase = .sent)
      (count : outcome.attemptCount = r.row.attemptCount) (settled : outcome.status.Settled) :
      Step limit r ⟨outcome, r.attempts, .idle⟩
  | fails {outcome : Delivery} (sent : r.phase = .sent)
      (count : outcome.attemptCount = r.row.attemptCount) (failed : outcome.status = .failed)
      (left : r.row.attemptCount < limit) : Step limit r ⟨outcome, r.attempts, .idle⟩

/-- The requests that the row counts and that are still to be sent. -/
def owed (r : Round) : Nat := if r.phase = .sending then 1 else 0

structure Sound (limit : Nat) (r : Round) : Prop where
  status : r.row.status = .delivering ↔ r.phase ≠ .idle
  count : r.attempts + r.owed = r.row.attemptCount
  pending : r.row.status = .pending → r.row.attemptCount = 0
  failed : r.row.status = .failed → r.row.attemptCount < limit
  within : r.row.attemptCount ≤ max 1 limit

theorem Sound.idle_of_settled (sound : r.Sound limit) (settled : r.row.status.Settled) :
    r.phase = .idle := by
  by_contra busy
  have delivering := sound.status.mpr busy
  rcases settled with same | same <;> exact nomatch same.symm.trans delivering

theorem Sound.step (sound : r.Sound limit) (step : Step limit r r') : r'.Sound limit := by
  obtain ⟨status, count, pending, failed, within⟩ := sound
  have sent_count : r.phase = .sent → r.attempts = r.row.attemptCount := by
    intro sent
    simpa [owed, sent] using count
  cases step with
  | stay => exact ⟨status, count, pending, failed, within⟩
  | opens idle unsettled =>
    have first : r.attempts = r.row.attemptCount := by simpa [owed, idle] using count
    have low : r.row.attemptCount + 1 ≤ max 1 limit := by
      cases now : r.row.status with
      | pending =>
        rw [pending now]
        exact le_max_left 1 limit
      | failed => exact le_trans (failed now) (le_max_right 1 limit)
      | delivering => exact absurd idle (status.mp now)
      | delivered => exact absurd (Or.inl now) unsettled
      | dead => exact absurd (Or.inr now) unsettled
    exact ⟨⟨fun _ => nofun, fun _ => rfl⟩, congrArg (· + 1) first, nofun, nofun, low⟩
  | sends sending =>
    have delivering := status.mpr (by rw [sending]; exact nofun)
    refine ⟨⟨fun _ => nofun, fun _ => delivering⟩, ?_, pending, failed, within⟩
    simpa [owed, sending] using count
  | @settles outcome sent kept settled =>
    have other : ∀ {other : DeliveryStatus}, outcome.status = other → other.Settled := by
      rintro _ rfl
      exact settled
    refine ⟨⟨fun same => (other same).elim nofun nofun, fun busy => absurd rfl busy⟩,
      (sent_count sent).trans kept.symm, fun same => (other same).elim nofun nofun,
      fun same => (other same).elim nofun nofun, kept ▸ within⟩
  | @fails outcome sent kept now left =>
    have other : ∀ {other : DeliveryStatus}, outcome.status = other → other = .failed := by
      rintro _ rfl
      exact now
    exact ⟨⟨fun same => absurd (other same) nofun, fun busy => absurd rfl busy⟩,
      (sent_count sent).trans kept.symm, fun same => absurd (other same) nofun,
      fun _ => kept ▸ left, kept ▸ within⟩

/-- Nothing happens to a settled row. -/
theorem Step.eq_of_settled (step : Step limit r r') (sound : r.Sound limit)
    (settled : r.row.status.Settled) : r' = r := by
  have idle := sound.idle_of_settled settled
  cases step with
  | stay => rfl
  | opens _ unsettled => exact absurd settled unsettled
  | sends sending => exact nomatch idle.symm.trans sending
  | settles sent | fails sent => exact nomatch idle.symm.trans sent

end Round

/-! What a session does for a round -/

namespace Worker

def Session.sends : Session → Option Delivery
  | .sending d _ => some d
  | _ => none

def Session.awaits : Session → Option Delivery
  | .receiving d _ | .committing d _ _ _ => some d
  | _ => none

def Session.phase : Session → Phase
  | .sending _ _ => .sending
  | .receiving _ _ | .committing _ _ _ _ => .sent
  | _ => .idle

theorem Session.phase_of_sends {q : Session} {d : Delivery} (sends : q.sends = some d) :
    q.phase = .sending := by
  cases q <;> cases sends
  rfl

theorem Session.phase_of_awaits {q : Session} {d : Delivery} (awaits : q.awaits = some d) :
    q.phase = .sent := by
  cases q <;> cases awaits <;> rfl

theorem Session.copy_of_sends {q : Session} {d : Delivery} (sends : q.sends = some d) :
    q.copy = some d := by
  cases q <;> cases sends
  rfl

theorem Session.copy_of_awaits {q : Session} {d : Delivery} (awaits : q.awaits = some d) :
    q.copy = some d := by
  cases q <;> cases awaits <;> rfl

/-- A move opens a round, sends its request, ends it or has no part in it. -/
inductive Phases (clock : ℚ) (s : Store) (q : Session) (c : Core) (q' : Session) : Prop
  | opens {d : Delivery} {e : Endpoint} (before : q = .gated d e)
      (core : c = s.core.commitDelivery .delivering d (delivering d))
      (after : q' = .sending (delivering d) e)
  | sends {d : Delivery} {e : Endpoint} (before : q = .sending d e)
      (core : c = s.core.logAttempt d.id clock) (after : q' = .receiving d e)
  | ends {d outcome : Delivery} {e : Endpoint} {delay : Option ℚ}
      (before : q = .committing d e outcome delay)
      (core : c = s.core.commitDelivery .outcome d outcome)
      (sends : q'.sends = none) (awaits : q'.awaits = none)
  | keeps (sends : q'.sends = q.sends) (awaits : q'.awaits = q.awaits)
      (deliveries : c.deliveries = s.core.deliveries) (log : c.log = s.core.log)

theorem Move.phases {env : Env} {clock : ℚ} {shard messageId : Nat} {id : Uuid} {s : Store}
    {q q' : Session} {c : Core} (move : Move env clock shard messageId id s q c q') :
    Phases clock s q c q' := by
  cases move with
  | commitDelivering => exact .opens rfl rfl rfl
  | send => exact .sends rfl rfl rfl
  | commitFailed | commitSettled => exact .ends rfl rfl rfl rfl
  | _ => exact .keeps rfl rfl rfl rfl

/-- An await adds no row. -/
theorem Phases.absent {clock : ℚ} {s : Store} {q q' : Session} {c : Core} {id : Uuid}
    (phases : Phases clock s q c q') (absent : s.core.delivery id = none) :
    c.delivery id = none := by
  have commits : ∀ {stage : Stage} {d outcome : Delivery},
      (s.core.commitDelivery stage d outcome).delivery id = none := by
    intro stage d outcome
    rw [Core.delivery_commitDelivery, absent]
    split <;> rfl
  cases phases with
  | opens _ core | ends _ core => exact core ▸ commits
  | sends _ core => exact core ▸ absent
  | keeps _ _ deliveries => simpa only [Core.delivery, deliveries] using absent

/-- A delay is found only below the maximum. -/
theorem resolve_left {env : Env} {clock jitter delay : ℚ} {v : Locals}
    {r : AttemptResult String}
    {outcome : Delivery} (resolved : resolve env clock v r jitter = some (outcome, some delay)) :
    v.delivery.attemptCount < env.settings.maxAttempts := by
  have below : ∀ status, Retry.maxAttemptsFor status env.settings.maxAttempts ≤
      env.settings.maxAttempts := by
    intro status
    unfold Retry.maxAttemptsFor
    split
    · exact min_le_right _ _
    · exact le_refl _
  by_contra spent
  have none : Retry.nextDelaySeconds env.float v.delivery.attemptCount r.httpStatus r.retryAfter
      env.settings.maxAttempts jitter = none :=
    if_pos ((below r.httpStatus).trans (not_lt.mp spent))
  unfold resolve at resolved
  rw [none] at resolved
  split at resolved <;> cases resolved

theorem Pc.step_left {env : Env} {clock : ℚ} {c : Choice} {shard messageId : Nat} {id : Uuid}
    {s s' : Store} {pc pc' : Pc} {d outcome : Delivery} {e : Endpoint} {delay : ℚ}
    (h : pc.step env clock c shard messageId id s = some (s', pc'))
    (commits : pc'.session = .committing d e outcome (some delay)) :
    pc.session = .committing d e outcome (some delay) ∨
      d.attemptCount < env.settings.maxAttempts := by
  have move := Pc.step_move h
  rw [commits] at move
  generalize core : s'.core = c' at move
  generalize before : pc.session = q at move
  cases move with
  | stay => exact Or.inl rfl
  | receive =>
    right
    cases pc with
    | receive v slot =>
      cases before
      simp only [Pc.step] at h
      split at h
      · split at h <;> cases h
        rename_i resolved
        cases commits
        exact resolve_left resolved
      · cases h
    | _ => cases before

end Worker

def LogEntry.attempts (id : Uuid) : LogEntry → Bool
  | .attempt deliveryId _ => decide (deliveryId = id)
  | _ => false

namespace World

variable {env : Env} {l : Label} {x y : World} {id : Uuid}

/-- The attempts at a delivery so far. -/
def attemptsAt (x : World) (id : Uuid) : Nat := x.core.log.countP (LogEntry.attempts id)

/-- Entries of other kinds are no attempts. -/
theorem attemptsAt_of_log {more : List LogEntry} (log : y.core.log = more ++ x.core.log)
    (quiet : ∀ entry ∈ more, entry.Quiet) : y.attemptsAt id = x.attemptsAt id := by
  have none : more.countP (LogEntry.attempts id) = 0 := by
    refine List.countP_eq_zero.mpr (fun entry listed => ?_)
    have only := quiet entry listed
    cases entry with
    | attempt => exact only.elim
    | _ => exact Bool.false_ne_true
  rw [attemptsAt, log, List.countP_append, none, Nat.zero_add]
  rfl

theorem attemptsAt_of_commit {stage : Stage} {loaded current : Delivery}
    (core : y.core = x.core.commitDelivery stage loaded current) :
    y.attemptsAt id = x.attemptsAt id := by
  obtain ⟨more, log, quiet⟩ := log_commitDelivery x.core stage loaded current
  exact attemptsAt_of_log (core ▸ log) quiet

theorem Change.attemptsAt (change : Change env x y l) (other : ∀ w c, l ≠ .work w c) :
    y.attemptsAt id = x.attemptsAt id := by
  cases change.logs with
  | quiet _ log only => exact attemptsAt_of_log log only
  | attempt label => exact absurd label (other _ _)
  | push _ _ _ _ log =>
    rw [World.attemptsAt, log, List.countP_cons]
    rfl
  | pop label => exact absurd label (other _ _)

/-- The worker's session is of this kind. -/
def Does (x : World) (kind : Session → Prop) (w : Nat) : Prop :=
  ∃ h, x.Handles w h ∧ kind h.pc.session

/-- Only its own awaits, and faults, change what a worker does. -/
theorem Change.does (change : Change env x y l) {kind : Session → Prop} {w : Nat}
    (start : ¬ kind .start) (left : ¬ kind (.leaving false)) (other : ∀ c, l ≠ .work w c)
    (kept : ∀ h, x.Handles w h → kind h.pc.session → l ≠ .raise w ∧ l ≠ .crash w) :
    y.Does kind w ↔ x.Does kind w := by
  constructor
  · rintro ⟨h, handles, is⟩
    cases change.arises handles with
    | same old _ => exact ⟨h, old, is⟩
    | begun _ _ begun =>
      rw [begun] at is
      exact absurd is start
    | moved label => exact absurd label (other _)
    | raised _ _ leaving _ =>
      rw [leaving] at is
      exact absurd is left
  · rintro ⟨h, handles, is⟩
    obtain ⟨raising, crashing⟩ := kept h handles is
    exact ⟨h, change.handles_kept handles other raising crashing, is⟩

/-- The worker is about to send this copy, or has sent it. -/
def Sending (x : World) (d : Delivery) (w : Nat) : Prop := x.Does (fun q => q.sends = some d) w

def Sent (x : World) (d : Delivery) (w : Nat) : Prop := x.Does (fun q => q.awaits = some d) w

/-- The phase of a round, as the workers have it. -/
def At (x : World) (row : Delivery) : Phase → Prop
  | .idle => ∀ w d, d.id = row.id → ¬ x.Sending d w ∧ ¬ x.Sent d w
  | .sending => ∃ w, x.Sending row w
  | .sent => ∃ w, x.Sent row w

structure Follows (x : World) (id : Uuid) (r : Round) : Prop where
  row : x.core.delivery id = some r.row
  attempts : x.attemptsAt id = r.attempts
  phase : x.At r.row r.phase

/-- What is about to be put off has attempts left. -/
def Unspent (env : Env) (x : World) : Prop :=
  ∀ w h d e outcome delay, x.Handles w h →
    h.pc.session = .committing d e outcome (some delay) →
    d.attemptCount < env.settings.maxAttempts

theorem Unspent.step (left : Unspent env x) (change : Change env x y l) : Unspent env y := by
  intro w h d e outcome delay handles session
  cases change.arises handles with
  | same old _ => exact left w h d e outcome delay old session
  | begun _ _ begun =>
    subst begun
    cases session
  | raised _ _ leaving _ => exact nomatch leaving.symm.trans session
  | moved _ handled step _ _ =>
    rcases Pc.step_left step session with before | below
    · exact left w _ d e outcome delay handled before
    · exact below

/-- Nothing is replayed, only entries that no live worker holds are claimed, and no
worker lets go in the middle of a round or once it has passed the delivery on. -/
structure Careful (x : World) (l : Label) : Prop where
  ingests : ∀ r call, l = .arrive r call → ∃ tenantId body, call = .ingest tenantId body
  released : ClaimsReleased x l
  sole : LeavesSole x l
  whole : ∀ w h, l = .crash w ∨ l = .raise w → x.Handles w h →
    h.pc.session.sends = none ∧ h.pc.session.awaits = none

theorem Careful.sending (careful : Careful x l) (change : Change env x y l) {w : Nat}
    (other : ∀ c, l ≠ .work w c) (d : Delivery) :
    (y.Sending d w ↔ x.Sending d w) ∧ (y.Sent d w ↔ x.Sent d w) := by
  constructor
  · refine change.does nofun nofun other
      (fun h handles sends => ⟨fun raise => ?_, fun crash => ?_⟩)
    · exact nomatch sends.symm.trans (careful.whole w h (Or.inr raise) handles).1
    · exact nomatch sends.symm.trans (careful.whole w h (Or.inl crash) handles).1
  · refine change.does nofun nofun other
      (fun h handles sends => ⟨fun raise => ?_, fun crash => ?_⟩)
    · exact nomatch sends.symm.trans (careful.whole w h (Or.inr raise) handles).2
    · exact nomatch sends.symm.trans (careful.whole w h (Or.inl crash) handles).2

theorem OnlyIngests.unselected (only : OnlyIngests x) {r : Nat} {q : Request}
    {rows : List Delivery} {streamShards : Nat} (running : x.requests r = some q) :
    q.job streamShards ≠ .selected rows := by
  obtain ⟨q', rfl⟩ := only r q running
  intro job
  cases pc : q'.pc <;> simp [Request.job, Ingest.job, pc] at job

/-- Who holds a copy of the row is the one who handles the delivery. -/
theorem Ingesting.alone (held : Ingesting env x) {w w' : Nat} {h h' : Handling} {d d' : Delivery}
    (handles : x.Handles w h) (handles' : x.Handles w' h') (copy : h.pc.session.copy = some d)
    (copy' : h'.pc.session.copy = some d') (same : d'.id = d.id) : w' = w ∧ h' = h := by
  obtain ⟨fields, due⟩ := Session.copy_sound copy (held.inv.sessions w h handles)
  obtain ⟨fields', due'⟩ := Session.copy_sound copy' (held.inv.sessions w' h' handles')
  have own : d.id = h.fields.deliveryId := congrArg Fields.deliveryId fields
  have own' : d'.id = h'.fields.deliveryId := congrArg Fields.deliveryId fields'
  have first := held.carries handles due
  have second := held.carries handles' due'
  rw [← own', same, own] at second
  obtain ⟨shard, message⟩ := Carrier.entry.inj (held.sole _ _ _ first second)
  exact held.excl.handler handles handles' shard.symm message.symm

theorem Sending.unique (held : Ingesting env x) {w w' : Nat} {h : Handling} {d d' : Delivery}
    (sending : x.Sending d w) (handles : x.Handles w' h) (copy : h.pc.session.copy = some d')
    (same : d'.id = d.id) : w' = w ∧ h.pc.session.sends = some d := by
  obtain ⟨h', handles', sends⟩ := sending
  obtain ⟨rfl, rfl⟩ := held.alone handles' handles (Session.copy_of_sends sends) copy same
  exact ⟨rfl, sends⟩

theorem Sent.unique (held : Ingesting env x) {w w' : Nat} {h : Handling} {d d' : Delivery}
    (sent : x.Sent d w) (handles : x.Handles w' h) (copy : h.pc.session.copy = some d')
    (same : d'.id = d.id) : w' = w ∧ h.pc.session.awaits = some d := by
  obtain ⟨h', handles', awaits⟩ := sent
  obtain ⟨rfl, rfl⟩ := held.alone handles' handles (Session.copy_of_awaits awaits) copy same
  exact ⟨rfl, awaits⟩

/-- A round goes on where its row, its attempts and its worker are let alone. -/
theorem Follows.keep {r : Round} (follows : Follows x id r)
    (row : y.core.delivery id = x.core.delivery id)
    (attempts : y.attemptsAt id = x.attemptsAt id)
    (same : ∀ w d, d.id = id → (y.Sending d w ↔ x.Sending d w) ∧
      (y.Sent d w ↔ x.Sent d w)) :
    Follows y id r := by
  obtain ⟨row', attempts', phase⟩ := follows
  have key : r.row.id = id := Table.get_key row'
  refine ⟨row.trans row', attempts.trans attempts', ?_⟩
  cases now : r.phase with
  | idle =>
    rw [now] at phase
    intro w d own
    obtain ⟨sends, sent⟩ := phase w d own
    exact ⟨fun on => sends ((same w d (own.trans key)).1.mp on),
      fun on => sent ((same w d (own.trans key)).2.mp on)⟩
  | sending =>
    rw [now] at phase
    exact phase.imp (fun w on => (same w r.row key).1.mpr on)
  | sent =>
    rw [now] at phase
    exact phase.imp (fun w on => (same w r.row key).2.mpr on)

/-- Without an await of a worker every round goes on as it is. -/
theorem Follows.rest {r : Round} (follows : Follows x id r) (held : Ingesting env x)
    (careful : Careful x l) (change : Change env x y l) (other : ∀ w c, l ≠ .work w c) :
    Follows y id r := by
  have row : y.core.delivery id = x.core.delivery id := by
    cases change.row held.inv id with
    | same same => exact same
    | delivering label | outcome label => exact absurd label (other _ _)
    | requeued _ running job => exact absurd job (held.only.unselected running)
    | inserted absent => exact nomatch absent.symm.trans follows.row
  exact follows.keep row (change.attemptsAt other)
    (fun w d _ => careful.sending change (other w) d)

/-- A row that is new begins its first round. -/
theorem Follows.first {row : Delivery} (held : Ingesting env x) (careful : Careful x l)
    (change : Change env x y l) (other : ∀ w c, l ≠ .work w c)
    (absent : x.core.delivery id = none) (now : y.core.delivery id = some row)
    (pending : row.status = .pending) :
    ∃ r, Follows y id r ∧ r.Sound env.settings.maxAttempts := by
  have unknown : ∀ f : Fields, x.core.Known f → f.deliveryId ≠ id := by
    rintro f known rfl
    obtain ⟨r, found, _⟩ := known.row
    exact nomatch absent.symm.trans found
  have untried : x.attemptsAt id = 0 := by
    refine List.countP_eq_zero.mpr (fun entry listed => ?_)
    cases entry with
    | attempt deliveryId time =>
      intro mine
      obtain ⟨f, same, known⟩ := held.inv.core.attempted deliveryId ⟨time, listed⟩
      exact unknown f known (same.trans (of_decide_eq_true mine))
    | _ => exact Bool.false_ne_true
  have key : row.id = id := Table.get_key now
  have nobody : ∀ {w d q}, d.id = row.id → x.Does q w →
      (∀ s, q s → s.copy = some d) → False := by
    rintro w d q own ⟨h, handles, is⟩ copies
    have fields := (Session.copy_sound (copies _ is) (held.inv.sessions w h handles)).1
    refine unknown h.fields (held.inv.known handles) ?_
    exact (congrArg Fields.deliveryId fields).symm.trans (own.trans key)
  have fresh : row.attemptCount = 0 := by
    have noReplay : NoReplay env id x l := fun s ids q rows _ running job =>
      absurd job (held.only.unselected running)
    have count := change.count_kept held.inv noReplay other
    have before : x.store.count id = 0 := by
      unfold Store.count
      rw [show x.store.db.delivery id = none from absent]
      rfl
    have after : y.store.count id = row.attemptCount := by
      unfold Store.count
      rw [show y.store.db.delivery id = some row from now]
      rfl
    rw [← after, count, before]
  refine ⟨⟨row, 0, .idle⟩,
    ⟨now, (change.attemptsAt other).trans untried, fun w d own => ?_⟩, ?_⟩
  · obtain ⟨sends, sent⟩ := careful.sending change (other w) d
    exact ⟨fun on => nobody own (sends.mp on) (fun _ => Session.copy_of_sends),
      fun on => nobody own (sent.mp on) (fun _ => Session.copy_of_awaits)⟩
  · have only : ∀ {status : DeliveryStatus}, row.status = status → status = .pending := by
      rintro _ rfl
      exact pending
    exact ⟨⟨fun same => absurd (only same) nofun, fun busy => absurd rfl busy⟩, fresh.symm,
      fun _ => fresh, fun same => absurd (only same) nofun, fresh.trans_le (Nat.zero_le _)⟩

/-- A commit over the row that was loaded. -/
theorem delivery_of_commit {stage : Stage} {d outcome : Delivery}
    (row : x.core.delivery d.id = some d) (fields : outcome.fields = d.fields)
    (core : y.core = x.core.commitDelivery stage d outcome) :
    y.core.delivery d.id = some outcome := by
  rw [core, Core.delivery_commitDelivery, if_pos rfl, row, Option.map_some,
    Delivery.flush_current fields]

/-- An await of a worker, from a state in which its copy is the row. -/
structure Awaits (env : Env) (x y : World) (w : Nat) (c : Choice) (h : Handling) (pc : Pc) :
    Prop where
  held : Ingesting env x
  current : CopiesCurrent x
  careful : Careful x (.work w c)
  change : Change env x y (.work w c)
  handles : x.Handles w h
  workers : y.workers = Function.update x.workers w (Consumer.goto (x.workers w) h pc)

section Await

variable {w w' : Nat} {c : Choice} {h h' : Handling} {pc : Pc} {d outcome : Delivery}
  {e : Endpoint} {r : Round}

theorem Awaits.after (a : Awaits env x y w c h pc) (handles : y.Handles w h') :
    h' = { h with pc := pc } :=
  (goto_current.mp ((handles_update_self a.workers).mp handles)).2

theorem Awaits.goes (a : Awaits env x y w c h pc) (running : pc.session ≠ .finished) :
    y.Handles w { h with pc := pc } := goto_handles running a.workers

theorem Awaits.others (a : Awaits env x y w c h pc) (ne : w' ≠ w) (d : Delivery) :
    (y.Sending d w' ↔ x.Sending d w') ∧ (y.Sent d w' ↔ x.Sent d w') := by
  refine a.careful.sending a.change (fun c' same => ne ?_) d
  cases same
  rfl

/-- What the worker that stepped does in a round, its session says. -/
theorem Awaits.does (a : Awaits env x y w c h pc) {kind : Session → Prop}
    (unfinished : ¬ kind .finished) : y.Does kind w ↔ kind pc.session := by
  constructor
  · rintro ⟨h', handles, is⟩
    rwa [a.after handles] at is
  · intro is
    refine ⟨_, a.goes (fun finished => unfinished ?_), is⟩
    rwa [finished] at is

theorem Awaits.did (a : Awaits env x y w c h pc) {kind : Session → Prop} :
    x.Does kind w ↔ kind h.pc.session := by
  constructor
  · rintro ⟨h', handles, is⟩
    cases a.handles.symm.trans handles
    exact is
  · exact fun is => ⟨h, a.handles, is⟩

theorem Awaits.copied (a : Awaits env x y w c h pc) (follows : Follows x h.fields.deliveryId r)
    (copy : h.pc.session.copy = some d) : d = r.row ∧ d.id = h.fields.deliveryId := by
  have fields := (Session.copy_sound copy (a.held.inv.sessions w h a.handles)).1
  have own : d.id = h.fields.deliveryId := congrArg Fields.deliveryId fields
  have now := a.current w h d a.handles copy
  rw [own, follows.row] at now
  exact ⟨(Option.some.inj now).symm, own⟩

/-- Nobody else has a part in the round of this delivery. -/
theorem Awaits.sending (a : Awaits env x y w c h pc) {d' : Delivery} (sending : x.Sending d' w')
    (copy : h.pc.session.copy = some d) (same : d.id = d'.id) :
    w' = w ∧ h.pc.session.sends = some d' := by
  obtain ⟨rfl, sends⟩ := sending.unique a.held a.handles copy same
  exact ⟨rfl, sends⟩

theorem Awaits.sent (a : Awaits env x y w c h pc) {d' : Delivery} (sent : x.Sent d' w')
    (copy : h.pc.session.copy = some d) (same : d.id = d'.id) :
    w' = w ∧ h.pc.session.awaits = some d' := by
  obtain ⟨rfl, awaits⟩ := sent.unique a.held a.handles copy same
  exact ⟨rfl, awaits⟩

/-- The phase of the round is the one that the session of its worker is in. -/
theorem Awaits.phase (a : Awaits env x y w c h pc) (phase : x.At r.row r.phase)
    (copy : h.pc.session.copy = some r.row) : r.phase = h.pc.session.phase := by
  cases now : r.phase with
  | idle =>
    rw [now] at phase
    obtain ⟨unsent, answered⟩ := phase w r.row rfl
    cases on : h.pc.session with
    | sending d e =>
      rw [on] at copy
      exact absurd (a.did.mpr (by rw [on]; exact copy)) unsent
    | receiving d e | committing d e outcome delay =>
      rw [on] at copy
      exact absurd (a.did.mpr (by rw [on]; exact copy)) answered
    | _ => rfl
  | sending =>
    rw [now] at phase
    obtain ⟨w', sending⟩ := phase
    exact (Session.phase_of_sends (a.sending sending copy rfl).2).symm
  | sent =>
    rw [now] at phase
    obtain ⟨w', sent⟩ := phase
    exact (Session.phase_of_awaits (a.sent sent copy rfl).2).symm

theorem Follows.opens (follows : Follows x h.fields.deliveryId r) (a : Awaits env x y w c h pc)
    (before : h.pc.session = .gated d e) (after : pc.session = .sending (delivering d) e)
    (core : y.core = x.core.commitDelivery .delivering d (delivering d)) :
    ∃ r', Round.Step env.settings.maxAttempts r r' ∧ Follows y h.fields.deliveryId r' := by
  have sound := a.held.inv.sessions w h a.handles
  rw [before] at sound
  have copy : h.pc.session.copy = some d := by rw [before]; rfl
  obtain ⟨rfl, own⟩ := a.copied follows copy
  have idle : r.phase = .idle := (a.phase follows.phase copy).trans (by rw [before]; rfl)
  rw [← own]
  exact ⟨_, .opens idle sound.2, delivery_of_commit (own ▸ follows.row) rfl core,
    (attemptsAt_of_commit core).trans (own ▸ follows.attempts),
    ⟨w, (a.does nofun).mpr (by rw [after]; rfl)⟩⟩

theorem Follows.sends (follows : Follows x h.fields.deliveryId r) (a : Awaits env x y w c h pc)
    (before : h.pc.session = .sending d e) (after : pc.session = .receiving d e)
    (core : y.core = x.core.logAttempt d.id x.clock) :
    ∃ r', Round.Step env.settings.maxAttempts r r' ∧ Follows y h.fields.deliveryId r' := by
  have copy : h.pc.session.copy = some d := by rw [before]; rfl
  obtain ⟨rfl, own⟩ := a.copied follows copy
  have sending : r.phase = .sending := (a.phase follows.phase copy).trans (by rw [before]; rfl)
  have one : y.attemptsAt r.row.id = x.attemptsAt r.row.id + 1 := by
    rw [attemptsAt, core]
    exact List.countP_cons_of_pos (by simp [LogEntry.attempts])
  have attempts : x.attemptsAt r.row.id = r.attempts := own ▸ follows.attempts
  rw [← own]
  exact ⟨_, .sends sending, by rw [core]; exact own ▸ follows.row,
    one.trans (congrArg (· + 1) attempts), ⟨w, (a.does nofun).mpr (by rw [after]; rfl)⟩⟩

theorem Follows.ends (follows : Follows x h.fields.deliveryId r) (a : Awaits env x y w c h pc)
    (timed : OutcomesTimed x) (left : Unspent env x) {delay : Option ℚ}
    (before : h.pc.session = .committing d e outcome delay) (sends : pc.session.sends = none)
    (awaits : pc.session.awaits = none)
    (core : y.core = x.core.commitDelivery .outcome d outcome) :
    ∃ r', Round.Step env.settings.maxAttempts r r' ∧ Follows y h.fields.deliveryId r' := by
  have sound := a.held.inv.sessions w h a.handles
  rw [before] at sound
  have copy : h.pc.session.copy = some d := by rw [before]; rfl
  obtain ⟨rfl, own⟩ := a.copied follows copy
  have sent : r.phase = .sent := (a.phase follows.phase copy).trans (by rw [before]; rfl)
  obtain ⟨time, _, resolved⟩ := timed w h r.row e outcome delay a.handles before
  have kept := resolved.keeps
  have fields : outcome.fields = r.row.fields := sound.2.2.2.1.trans sound.1.fields.symm
  have step : Round.Step env.settings.maxAttempts r ⟨outcome, r.attempts, .idle⟩ := by
    rcases sound.2.2.2.2 with ⟨_, settled⟩ | ⟨some, failed⟩
    · exact .settles sent kept.2.2.2 settled
    · obtain ⟨seconds, rfl⟩ := Option.ne_none_iff_exists'.mp some
      exact .fails sent kept.2.2.2 failed (left w h r.row e outcome seconds a.handles before)
  rw [← own]
  refine ⟨_, step, delivery_of_commit (own ▸ follows.row) fields core,
    (attemptsAt_of_commit core).trans (own ▸ follows.attempts), fun w' d' mine => ?_⟩
  have same : r.row.id = d'.id := kept.1.symm.trans mine.symm
  by_cases here : w' = w
  · subst here
    exact ⟨fun on => Option.some_ne_none _ (((a.does nofun).mp on).symm.trans sends),
      fun on => Option.some_ne_none _ (((a.does nofun).mp on).symm.trans awaits)⟩
  · exact ⟨fun on => here (a.sending ((a.others here d').1.mp on) copy same).1,
      fun on => here (a.sent ((a.others here d').2.mp on) copy same).1⟩

theorem Follows.keeps (follows : Follows x id r) (a : Awaits env x y w c h pc)
    (sends : pc.session.sends = h.pc.session.sends)
    (awaits : pc.session.awaits = h.pc.session.awaits)
    (deliveries : y.core.deliveries = x.core.deliveries) (log : y.core.log = x.core.log) :
    Follows y id r := by
  refine follows.keep ?_ ?_ (fun w' d _ => ?_)
  · simp only [Core.delivery, deliveries]
  · rw [attemptsAt, log]
    rfl
  · by_cases same : w' = w
    · subst same
      have sends_before : x.Sending d w' ↔ h.pc.session.sends = some d := a.did
      have sent_before : x.Sent d w' ↔ h.pc.session.awaits = some d := a.did
      have none : Option.none ≠ some d := (Option.some_ne_none d).symm
      have sends_after : y.Sending d w' ↔ pc.session.sends = some d := a.does none
      have sent_after : y.Sent d w' ↔ pc.session.awaits = some d := a.does none
      exact ⟨by rw [sends_after, sends, sends_before], by rw [sent_after, awaits, sent_before]⟩
    · exact a.others same d

/-- An await at another delivery. -/
theorem Follows.elsewhere (follows : Follows x id r) (a : Awaits env x y w c h pc)
    (inv : Consistent env y) (away : h.fields.deliveryId ≠ id)
    (phases : Phases x.clock x.store h.pc.session y.core pc.session) : Follows y id r := by
  have named : ∀ {d}, h.pc.session.copy = some d → d.id ≠ id := by
    intro d copy own
    have fields := (Session.copy_sound copy (a.held.inv.sessions w h a.handles)).1
    exact away ((congrArg Fields.deliveryId fields).symm.trans own)
  have commits : ∀ {d outcome : Delivery} {stage : Stage}, d.id ≠ id →
      y.core = x.core.commitDelivery stage d outcome →
      y.core.delivery id = x.core.delivery id := by
    intro d outcome stage other core
    rw [core, Core.delivery_commitDelivery, if_neg (Ne.symm other)]
  have row : y.core.delivery id = x.core.delivery id ∧ y.attemptsAt id = x.attemptsAt id := by
    cases phases with
    | @opens d e before core =>
      exact ⟨commits (named (by rw [before]; rfl)) core, attemptsAt_of_commit core⟩
    | @sends d e before core =>
      have other : d.id ≠ id := named (by rw [before]; rfl)
      refine ⟨by rw [core]; rfl, ?_⟩
      rw [attemptsAt, core]
      exact List.countP_cons_of_neg (by simpa [LogEntry.attempts] using other)
    | @ends d outcome e delay before core =>
      exact ⟨commits (named (by rw [before]; rfl)) core, attemptsAt_of_commit core⟩
    | keeps _ _ deliveries log =>
      refine ⟨?_, ?_⟩
      · simp only [Core.delivery, deliveries]
      · rw [attemptsAt, log]
        rfl
  refine follows.keep row.1 row.2 (fun w' d own => ?_)
  by_cases mine : w' = w
  · subst mine
    have before : ∀ {q : Session → Prop}, (∀ s, q s → s.copy = some d) → ¬ x.Does q w' :=
      fun copies does => named (copies _ (a.did.mp does)) own
    have after : ∀ {q : Session → Prop}, (∀ s, q s → s.copy = some d) →
        ¬ y.Does q w' := by
      rintro q copies ⟨h', handles', is⟩
      have fields := (Session.copy_sound (copies _ is) (inv.sessions w' h' handles')).1
      rw [a.after handles'] at fields
      exact away ((congrArg Fields.deliveryId fields).symm.trans own)
    exact ⟨iff_of_false (after fun _ => Session.copy_of_sends)
      (before fun _ => Session.copy_of_sends),
      iff_of_false (after fun _ => Session.copy_of_awaits)
        (before fun _ => Session.copy_of_awaits)⟩
  · exact a.others mine d

end Await

/-- Every step of the pipeline is a step of every delivery's round. -/
theorem Follows.step {r : Round} (follows : Follows x id r) (held : Ingesting env x)
    (current : CopiesCurrent x) (timed : OutcomesTimed x) (left : Unspent env x)
    (careful : Careful x l) (next : World.step env l x = some y) :
    ∃ r', Round.Step env.settings.maxAttempts r r' ∧ Follows y id r' := by
  have change := step_change next
  have inv := held.inv.step change
  by_cases working : ∃ w c, l = .work w c
  · obtain ⟨w, c, rfl⟩ := working
    have changed := change
    cases change with
    | admin label => exact label.elim
    | drop label => rcases label with same | same <;> cases same
    | @work _ _ h pc _ handles step move workers _ =>
      have a : Awaits env x y w c h pc := ⟨held, current, careful, changed, handles, workers⟩
      by_cases mine : h.fields.deliveryId = id
      · subst mine
        cases move.phases with
        | opens before core after => exact follows.opens a before after core
        | sends before core after => exact follows.sends a before after core
        | ends before core sends awaits => exact follows.ends a timed left before sends awaits core
        | keeps sends awaits deliveries log =>
          exact ⟨r, .stay, follows.keeps a sends awaits deliveries log⟩
      · exact ⟨r, .stay, follows.elsewhere a inv mine move.phases⟩
  · exact ⟨r, .stay, follows.rest held careful
      change (fun w c same => working ⟨w, c, same⟩)⟩

end World

end Relay
