import Relay.Pipeline.Lists

/-!
# Ingestions in the pipeline

Events, reservations of keys and the rows of a fan-out are written by ingestions
only. Every delivery of an event is appended by the one request that committed
it, and never twice.
-/

namespace Relay

open Enqueue RetryQueue Worker Api

/-- A worker writes deliveries, attempts and the status of endpoints. -/
theorem Worker.Pc.step_tables {env : Env} {clock : ℚ} {c : Choice} {shard messageId : Nat}
    {id : Uuid} {s s' : Store} {pc pc' : Pc}
    (h : pc.step env clock c shard messageId id s = some (s', pc')) :
    ∃ endpoints deliveries attempts, s'.db =
      { s.db with endpoints := endpoints, deliveries := deliveries, attempts := attempts } := by
  cases pc with
  | acquireLock v =>
    simp only [Pc.step, Store.acquireLock] at h
    split at h
    · cases h
      exact ⟨_, _, _, rfl⟩
    · rename_i locked acquired
      split at acquired <;> cases acquired
      cases h
      exact ⟨_, _, _, rfl⟩
  | releaseNotHead v | releaseLock v token acks =>
    simp only [Pc.step, Store.releaseLock] at h
    cases h
    repeat' split
    all_goals exact ⟨_, _, _, rfl⟩
  | allowRequest v | takeToken v rate | acquireSlot v cap =>
    simp only [Pc.step] at h
    split at h
    all_goals
      rename_i answer
      cases h
      exact ⟨s.db.endpoints, s.db.deliveries, s.db.attempts,
        (congrArg (fun a => a.1.db) answer).symm⟩
  | _ =>
    simp only [Pc.step] at h
    repeat' split at h
    all_goals cases h <;> exact ⟨_, _, _, rfl⟩

theorem Api.reserved_commitRequeued (s : Store) (rows : List Delivery) :
    (commitRequeued s rows).db.reserved = s.db.reserved := by
  obtain ⟨_, _, same⟩ := commitRequeued_frame s rows
  rw [same]

theorem Api.Command.reserved_exec (streamShards : Nat) (source : Source) (s : Store) (c : Command) :
    (c.exec streamShards source s).db.reserved = s.db.reserved := by
  obtain ⟨_, _, _, same⟩ := c.exec_frame streamShards source s
  rw [same]

namespace World

variable {env : Env} {l : Label} {x y : World}

/-- What a step does to ingestions and to the reserved keys. -/
inductive Ingests (env : Env) (x y : World) (l : Label) : Prop
  | none (reserved : y.store.db.reserved = x.store.db.reserved)
      (other : ∀ r ids q, l = .serve r ids → x.requests r ≠ some (.ingest q))
      (requests : ∀ r q, y.requests r = some (.ingest q) ↔ x.requests r = some (.ingest q))
  | arrive {r : Nat} {tenantId : Uuid} {body : EventCreate}
      (label : l = .arrive r (.ingest tenantId body))
      (reserved : y.store.db.reserved = x.store.db.reserved) (free : x.requests r = none)
      (requests : y.requests =
        Function.update x.requests r (some (.ingest (Ingest.start tenantId body))))
  | serve {r : Nat} {ids : List Uuid} {q q' : Ingest} (label : l = .serve r ids)
      (running : x.requests r = some (.ingest q))
      (next : Ingest.step env.settings.streamShards ids x.store q = some (y.store, q'))
      (requests : y.requests = Function.update x.requests r (some (.ingest q')))
  | fail {r : Nat} {q q' : Ingest} (label : l = .fail r)
      (running : x.requests r = some (.ingest q))
      (next : Ingest.fail x.store q = some (y.store, q'))
      (requests : y.requests = Function.update x.requests r (some (.ingest q')))

/-- A request of another kind takes the slot of one of another kind. -/
theorem ingests_update {r : Nat} {q : Request} (other : ∀ q', q ≠ .ingest q')
    (before : ∀ q', x.requests r ≠ some (.ingest q'))
    (requests : y.requests = Function.update x.requests r (some q)) (r' : Nat) (q' : Ingest) :
    y.requests r' = some (.ingest q') ↔ x.requests r' = some (.ingest q') := by
  rw [requests]
  by_cases mine : r' = r
  · subst mine
    rw [Function.update_self]
    exact ⟨fun same => absurd (Option.some.inj same) (other q'),
      fun same => absurd same (before q')⟩
  · rw [Function.update_of_ne mine]

theorem step_ingests (h : World.step env l x = some y) : Ingests env x y l := by
  cases l with
  | tick | createTenant | createEndpoint | patchEndpoint | proposeAction | resetBreaker | read
  | claim | take | raise | crash | schedule =>
    simp only [World.step, stepTick, stepCreateTenant, stepCreateEndpoint, stepPatchEndpoint,
      stepProposeAction, stepResetBreaker, stepRead, stepClaim, stepBegin, stepRaise, stepCrash,
      stepSchedule] at h
    repeat' split at h
    all_goals cases h <;> exact .none rfl (fun _ _ _ same => by cases same) (fun _ _ => Iff.rfl)
  | work w c =>
    simp only [World.step, stepWork] at h
    repeat' split at h
    all_goals cases h
    rename_i next
    obtain ⟨_, _, _, tables⟩ := Pc.step_tables next
    exact .none (congrArg Db.reserved tables :) (fun _ _ _ same => by cases same)
      (fun _ _ => Iff.rfl)
  | arrive r call =>
    simp only [World.step, stepArrive] at h
    split at h <;> cases h
    rename_i free
    have free : x.requests r = none := by simpa using free
    have before : ∀ q', x.requests r ≠ some (.ingest q') := by simp [free]
    cases call with
    | ingest tenantId body => exact .arrive rfl rfl free rfl
    | replay =>
      exact .none rfl (fun _ _ _ same => by cases same)
        (ingests_update (fun _ same => by cases same) before rfl)
    | approve =>
      exact .none rfl (fun _ _ _ same => by cases same)
        (ingests_update (fun _ same => by cases same) before rfl)
  | serve r ids =>
    simp only [World.step, stepServe] at h
    split at h
    · cases h
    · rename_i q running
      split at h <;> cases h
      rename_i next
      exact .serve rfl running next rfl
    · rename_i q running
      split at h <;> cases h
      rename_i s q' next
      refine .none ?_ (fun _ _ _ same => by cases same; simp [running])
        (ingests_update (fun _ same => by cases same) (by simp [running]) rfl)
      simp only [Replay.step] at next
      repeat' split at next
      all_goals
        cases next <;> first
          | rfl
          | exact reserved_commitRequeued _ _
          | exact Command.reserved_exec _ _ _ _
    · rename_i q running
      split at h <;> cases h
      rename_i s q' next
      refine .none ?_ (fun _ _ _ same => by cases same; simp [running])
        (ingests_update (fun _ same => by cases same) (by simp [running]) rfl)
      simp only [Approve.step] at next
      repeat' split at next
      all_goals
        cases next <;> first
          | rfl
          | exact reserved_commitRequeued _ _
          | exact Command.reserved_exec _ _ _ _
  | fail r =>
    simp only [World.step, stepFail] at h
    split at h
    · rename_i q running
      split at h <;> cases h
      rename_i next
      exact .fail rfl running next rfl
    · rename_i q running
      cases h
      exact .none rfl (fun _ _ _ same => by cases same)
        (ingests_update (fun _ same => by cases same) (by simp [running]) rfl)
    · rename_i q running
      cases h
      exact .none rfl (fun _ _ _ same => by cases same)
        (ingests_update (fun _ same => by cases same) (by simp [running]) rfl)
    · cases h

end World

/-! Rows of a fan-out and the commands that append them -/

/-- The columns of the delivery rows that never change. -/
def Core.listing (c : Core) : List Fields := c.deliveries.map Delivery.fields

theorem Core.listing_commitDelivery (c : Core) (stage : Stage) (loaded current : Delivery) :
    (c.commitDelivery stage loaded current).listing = c.listing := by
  simp only [Core.listing, Core.commitDelivery, Table.update, List.map_map]
  apply List.map_congr_left
  intro row _
  by_cases mine : row.id = loaded.id
  · simp [mine, Delivery.fields]
  · simp [mine]

/-- The commands that an ingestion has yet to issue. -/
def Api.Ingest.left (q : Ingest) : List Command :=
  match q.pc with
  | .enqueue _ commands => commands
  | _ => []

theorem Api.Ingest.mem_commands {endpoints : List Endpoint} {deliveries : List Delivery}
    {f : Fields} : Command.xadd f ∈ commands endpoints deliveries ↔
      ∃ d ∈ deliveries, d.fields = f := by
  unfold commands
  rw [List.mem_flatMap]
  constructor
  · rintro ⟨d, listed, member⟩
    refine ⟨d, listed, ?_⟩
    unfold Command.enqueueInOrder at member
    split at member
    · simpa [Command.enqueue, Delivery.fields, eq_comm] using member
    · simpa [Command.enqueue, Delivery.fields, eq_comm] using member
  · rintro ⟨d, listed, rfl⟩
    exact ⟨d, listed, List.mem_append_right _ List.mem_cons_self⟩

/-- A commit or a push, or an entry appended by a replay. -/
def LogEntry.NoIngest : LogEntry → Prop
  | .xadd .ingest _ => False
  | _ => True

namespace World

variable {env : Env} {l : Label} {x y : World}

def left (x : World) (r : Nat) : List Command :=
  match x.requests r with
  | some (.ingest q) => q.left
  | _ => []

/-- Promised entries stay promised unless the request fails. -/
structure LeftKept (x y : World) (l : Label) : Prop where
  sub : ∀ r, (y.left r).Sublist (x.left r)
  kept : ∀ r f, Command.xadd f ∈ x.left r → Command.xadd f ∈ y.left r ∨ l = .fail r

/-- What a step does to the rows of fan-outs and to the entries that they promise. -/
inductive Appends (env : Env) (x y : World) (l : Label) : Prop
  | none {more : List LogEntry} (listing : y.core.listing = x.core.listing)
      (events : y.core.events = x.core.events) (log : y.core.log = more ++ x.core.log)
      (only : ∀ entry ∈ more, entry.NoIngest) (left : LeftKept x y l)
  | append {r : Nat} {q : Ingest} {id : Uuid} {f : Fields} {rest : List Command}
      (running : x.requests r = some (.ingest q)) (pc : q.pc = .enqueue id (.xadd f :: rest))
      (goes : y.requests r = some (.ingest { q with pc := .enqueue id rest }))
      (others : ∀ r', r' ≠ r → y.requests r' = x.requests r')
      (core : y.core = x.core.enqueueDelivery env.settings.streamShards .ingest f)
  | commit {r : Nat} {q : Ingest} {event : Event} {endpoints : List Endpoint}
      {deliveries : List Delivery} (running : x.requests r = some (.ingest q))
      (pc : q.pc = .commit event endpoints deliveries)
      (goes : y.requests r = some (.ingest
        { q with pc := .enqueue event.id (Ingest.commands endpoints deliveries) }))
      (others : ∀ r', r' ≠ r → y.requests r' = x.requests r')
      (core : y.core = x.core.commitEvent event deliveries)

theorem left_of_ingest {r : Nat} {q : Ingest} (running : x.requests r = some (.ingest q)) :
    x.left r = q.left := by
  simp only [left, running]

theorem LeftKept.update {r : Nat} {q : Ingest} {request : Option Request}
    (sub : q.left.Sublist (x.left r))
    (kept : ∀ f, Command.xadd f ∈ x.left r → Command.xadd f ∈ q.left ∨ l = .fail r)
    (requests : y.requests = Function.update x.requests r request)
    (same : request = some (.ingest q)) : LeftKept x y l := by
  have here : y.left r = q.left :=
    left_of_ingest (by rw [requests, Function.update_self, same])
  have elsewhere : ∀ r', r' ≠ r → y.left r' = x.left r' := fun r' ne => by
    simp only [left, requests, Function.update_of_ne ne]
  refine ⟨fun r' => ?_, fun r' f promised => ?_⟩
  · by_cases mine : r' = r
    · subst mine
      exact here ▸ sub
    · exact elsewhere r' mine ▸ List.Sublist.refl _
  · by_cases mine : r' = r
    · subst mine
      exact here ▸ kept f promised
    · exact Or.inl (elsewhere r' mine ▸ promised)

/-- A request that promises nothing may go on as it likes. -/
theorem LeftKept.empty {r : Nat} {q : Ingest} {request : Option Request} (ended : q.left = [])
    (before : x.left r = [] ∨ l = .fail r)
    (requests : y.requests = Function.update x.requests r request)
    (same : request = some (.ingest q)) : LeftKept x y l := by
  refine .update (ended ▸ List.nil_sublist _) (fun f promised => ?_) requests same
  rcases before with none | failed
  · exact absurd (none ▸ promised) List.not_mem_nil
  · exact Or.inr failed

end World

/-- One await of an ingestion, by what it finds. -/
inductive Api.Ingest.Steps (streamShards : Nat) (s : Store) (q : Ingest) :
    Store → IngestPc → Prop
  | found {existing : Event} (pc : q.pc = .lookup)
      (listed : q.body.idempotencyKey.bind (s.db.existingByIdempotencyKey q.tenantId) =
        some existing) : Steps streamShards s q s (.accepted existing.id)
  | missing (pc : q.pc = .lookup) : Steps streamShards s q s .queryEndpoints
  | taken (pc : q.pc = .queryEndpoints)
      (taken : keyTaken s.db q.tenantId q.body.idempotencyKey = true) :
      Steps streamShards s q s (.failed .integrityError)
  | insert {eventId : Uuid} {ids : List Uuid} (pc : q.pc = .queryEndpoints)
      (free : keyTaken s.db q.tenantId q.body.idempotencyKey = false)
      (unreserved : ¬ keyReserved s.db q.tenantId q.body.idempotencyKey)
      (drawn : ids.length = (fanOut s.db q.tenantId q.body.eventType).length) :
      Steps streamShards s q
        { s with
          db := reserve s.db q.tenantId q.body.idempotencyKey
          issued := eventId :: ids ++ s.issued }
        (.commit ⟨eventId, q.tenantId, q.body.eventType, q.body.payload, q.body.idempotencyKey⟩
          (fanOut s.db q.tenantId q.body.eventType)
          (newDeliveries eventId ids (fanOut s.db q.tenantId q.body.eventType)))
  | commit {event : Event} {endpoints : List Endpoint} {deliveries : List Delivery}
      (pc : q.pc = .commit event endpoints deliveries) :
      Steps streamShards s q (commitEvent s event deliveries)
        (.enqueue event.id (commands endpoints deliveries))
  | conflict {event : Event} {endpoints : List Endpoint} {deliveries : List Delivery}
      (pc : q.pc = .commit event endpoints deliveries)
      (missing : ¬ ForeignKeysHold s.db deliveries) : Steps streamShards s q s .rollback
  | rollback {reason : Failure} (pc : q.pc = .rollback) :
      Steps streamShards s q (abandon s q) (.failed reason)
  | exec {id : Uuid} {c : Command} {rest : List Command} (pc : q.pc = .enqueue id (c :: rest)) :
      Steps streamShards s q (c.exec streamShards .ingest s) (.enqueue id rest)
  | finish {id : Uuid} (pc : q.pc = .enqueue id []) : Steps streamShards s q s (.accepted id)

theorem Api.Ingest.step_steps {streamShards : Nat} {ids : List Uuid} {s s' : Store}
    {q q' : Ingest} (h : Ingest.step streamShards ids s q = some (s', q')) :
    ∃ pc, q' = { q with pc := pc } ∧ Steps streamShards s q s' pc := by
  unfold Ingest.step at h
  split at h <;> rename_i pc
  · split at h <;> cases h
    · rename_i listed
      exact ⟨_, rfl, .found pc listed⟩
    · exact ⟨_, rfl, .missing pc⟩
  · split at h
    · rename_i taken
      cases h
      exact ⟨_, rfl, .taken pc taken⟩
    · rename_i free
      split at h
      · cases h
      · rename_i unreserved
        simp only at h
        split at h
        · cases h
        · split at h <;> cases h
          rename_i drawn
          exact ⟨_, rfl, .insert pc (by simpa using free) unreserved drawn.2⟩
  · split at h <;> cases h
    · exact ⟨_, rfl, .commit pc⟩
    · rename_i missing
      exact ⟨_, rfl, .conflict pc missing⟩
  · cases h
    exact ⟨_, rfl, .rollback pc⟩
  · cases h
    exact ⟨_, rfl, .finish pc⟩
  · cases h
    exact ⟨_, rfl, .exec pc⟩
  · cases h
  · cases h

/-- The transaction that has inserted the event is open. -/
def Api.Ingest.Inserting (q : Ingest) : Prop :=
  match q.pc with
  | .commit _ _ _ | .rollback => True
  | _ => False

theorem Api.Ingest.fail_steps {s s' : Store} {q q' : Ingest}
    (h : Ingest.fail s q = some (s', q')) : q' = { q with pc := .failed .died } ∧
      ((q.Inserting ∧ s' = abandon s q) ∨ (¬ q.Inserting ∧ s' = s)) := by
  unfold Ingest.fail at h
  unfold Inserting
  cases pc : q.pc
  all_goals
    simp only [pc] at h
    cases h
  all_goals simp

namespace World

/-- No new row, no event, and no entry of an ingestion. -/
structure Idles (c c' : Core) : Prop where
  listing : c'.listing = c.listing
  events : c'.events = c.events
  log : ∃ more, c'.log = more ++ c.log ∧ ∀ entry ∈ more, entry.NoIngest

theorem Idles.refl (c : Core) : Idles c c :=
  ⟨rfl, rfl, [], rfl, fun _ h => absurd h List.not_mem_nil⟩

theorem Idles.of_same {c c' : Core} (deliveries : c'.deliveries = c.deliveries)
    (events : c'.events = c.events) (log : c'.log = c.log) : Idles c c' :=
  ⟨congrArg (List.map Delivery.fields) deliveries, events, [], log,
    fun _ h => absurd h List.not_mem_nil⟩

theorem Idles.of_one {c c' : Core} {entry : LogEntry} (deliveries : c'.deliveries = c.deliveries)
    (events : c'.events = c.events) (log : c'.log = entry :: c.log) (quiet : entry.NoIngest) :
    Idles c c' :=
  ⟨congrArg (List.map Delivery.fields) deliveries, events, [entry], log,
    fun _ h => List.mem_singleton.mp h ▸ quiet⟩

theorem idles_commitDelivery (c : Core) (stage : Stage) (loaded current : Delivery) :
    Idles c (c.commitDelivery stage loaded current) := by
  refine ⟨c.listing_commitDelivery _ _ _, rfl, _, rfl, fun entry listed => ?_⟩
  obtain ⟨row, _, rfl⟩ := Option.map_eq_some_iff.mp (Option.mem_toList.mp listed)
  trivial

theorem idles_commitRequeued (c : Core) (rows : List Delivery) :
    Idles c (c.commitRequeued rows) := by
  unfold Core.commitRequeued
  induction rows generalizing c with
  | nil => exact .refl c
  | cons row rest ih =>
    have first := idles_commitDelivery c .requeued row (requeued row)
    have later := ih (c.commitDelivery .requeued row (requeued row))
    obtain ⟨more, log, quiet⟩ := first.log
    obtain ⟨more', log', quiet'⟩ := later.log
    refine ⟨later.listing.trans first.listing, later.events.trans first.events, more' ++ more,
      ?_, fun entry listed => ?_⟩
    · rw [List.foldl_cons, log', log, List.append_assoc]
    · exact (List.mem_append.mp listed).elim (quiet' entry) (quiet entry)

theorem Move.idles {clock : ℚ} {shard messageId : Nat} {id : Uuid} {s : Store} {q q' : Session}
    {c : Core} (move : Move env clock shard messageId id s q c q') : Idles s.core c := by
  cases move with
  | commitDelivering | commitFailed | commitSettled => exact idles_commitDelivery _ _ _ _
  | send => exact .of_one rfl rfl rfl trivial
  | _ => exact .of_same rfl rfl rfl

/-- A request that is no ingestion. -/
theorem JobMove.idles {streamShards : Nat} {s : Store} {j j' : Job} {c : Core}
    (move : JobMove streamShards s j c j')
    (other : (∀ event endpoints deliveries, j ≠ .inserting event endpoints deliveries) ∧
      ∀ commands, j ≠ .enqueueing .ingest commands) : Idles s.core c := by
  cases move with
  | commit => exact absurd rfl (other.1 _ _ _)
  | requeue => exact idles_commitRequeued _ _
  | @exec source command rest =>
    cases command with
    | zrem | rpush =>
      first
        | exact .of_same rfl rfl rfl
        | exact .of_one rfl rfl rfl trivial
    | xadd f =>
      refine .of_one rfl rfl rfl ?_
      cases source with
      | ingest => exact absurd rfl (other.2 _)
      | replay | approve => trivial
  | _ => exact .of_same rfl rfl rfl

theorem job_not_ingest {streamShards : Nat} {q : Request} (other : ∀ q', q ≠ .ingest q') :
    (∀ event endpoints deliveries, q.job streamShards ≠ .inserting event endpoints deliveries)
    ∧
      ∀ commands, q.job streamShards ≠ .enqueueing .ingest commands := by
  cases q with
  | ingest q => exact absurd rfl (other q)
  | replay q => cases pc : q.pc <;> simp [Request.job, Replay.job, pc]
  | approve q => cases pc : q.pc <;> simp [Request.job, Approve.job, pc]

theorem Change.idles (change : Change env x y l)
    (other : ∀ r ids q, l = .serve r ids → x.requests r ≠ some (.ingest q)) :
    Idles x.core y.core := by
  cases change with
  | admin _ _ _ _ core =>
    exact .of_same (congrArg Core.deliveries core :) (congrArg Core.events core :)
      (congrArg Core.log core :)
  | arrive _ core | read _ _ _ core | claim _ _ _ _ _ core | take _ _ _ core | raise _ _ core
  | drop _ _ core | schedule _ core | fail _ _ core =>
    exact .of_same (congrArg Core.deliveries core :) (congrArg Core.events core :)
      (congrArg Core.log core :)
  | work _ _ _ move _ _ => exact Move.idles move
  | @serve r ids q _ _ running move _ _ =>
    refine JobMove.idles move (job_not_ingest (fun q' same => ?_))
    exact other r ids q' rfl (same ▸ running)

theorem Idles.appends (idles : Idles x.core y.core) (left : LeftKept x y l) :
    Appends env x y l := by
  obtain ⟨more, log, only⟩ := idles.log
  exact .none idles.listing idles.events log only left

theorem step_appends (h : World.step env l x = some y) : Appends env x y l := by
  have change := step_change h
  cases step_ingests h with
  | none _ other requests =>
    have same : ∀ r, y.left r = x.left r := by
      intro r
      unfold left
      cases before : x.requests r with
      | none =>
        cases after : y.requests r with
        | none => rfl
        | some q =>
          cases q with
          | ingest q => exact absurd ((requests r q).mp after) (by simp [before])
          | replay | approve => rfl
      | some q =>
        cases q with
        | ingest q => rw [(requests r q).mpr before]
        | replay | approve =>
          cases after : y.requests r with
          | none => rfl
          | some q' =>
            cases q' with
            | ingest q' => exact absurd ((requests r q').mp after) (by simp [before])
            | replay | approve => rfl
    exact (change.idles other).appends
      ⟨fun r => same r ▸ List.Sublist.refl _,
        fun r f promised => Or.inl (same r ▸ promised)⟩
  | @arrive r tenantId body label _ free requests =>
    subst label
    refine (change.idles (fun _ _ _ same => by cases same)).appends
      (.empty ?_ (Or.inl (by simp [left, free])) requests rfl)
    by_cases keyed : body.idempotencyKey.isSome = true <;>
      simp [Ingest.left, Ingest.start, keyed]
  | @fail r q q' label running next requests =>
    subst label
    exact (change.idles (fun _ _ _ same => by cases same)).appends
      (.empty (by rw [(Ingest.fail_steps next).1]; rfl) (Or.inr rfl) requests rfl)
  | @serve r ids q q' label running next requests =>
    have goes : y.requests r = some (.ingest q') := by rw [requests, Function.update_self]
    have others : ∀ r', r' ≠ r → y.requests r' = x.requests r' := fun r' ne => by
      rw [requests, Function.update_of_ne ne]
    have before := left_of_ingest running
    have quiet : Idles x.core y.core → q'.left = [] → q.left = [] → Appends env x y l :=
      fun idles ended none => idles.appends (.empty ended (Or.inl (before.trans none)) requests rfl)
    obtain ⟨pc', rfl, steps⟩ := Ingest.step_steps next
    generalize store : y.store = s at steps
    have core : y.core = s.core := congrArg Store.core store
    have same : s.core = x.core → Idles x.core y.core := fun kept =>
      (core.trans kept).symm ▸ Idles.refl x.core
    cases steps with
    | found pc | missing pc | taken pc | conflict pc | finish pc =>
      exact quiet (same rfl) rfl (by simp only [Ingest.left, pc])
    | insert pc =>
      rw [Ingest.core_insert] at core
      have idles : Idles x.core y.core := core ▸ Idles.of_same rfl rfl rfl
      exact quiet idles rfl (by simp only [Ingest.left, pc])
    | rollback pc =>
      exact quiet (same (Ingest.core_abandon _ _)) rfl (by simp only [Ingest.left, pc])
    | commit pc =>
      exact .commit running pc goes others (core.trans (Ingest.core_commitEvent _ _ _))
    | @exec id c rest pc =>
      rw [Store.core_exec] at core
      simp only [Ingest.left, pc] at before
      have shorter : (∀ f, c ≠ .xadd f) → LeftKept x y l := by
        intro silent
        refine .update ?_ (fun f promised => Or.inl ?_) requests rfl
        · rw [before]
          exact List.sublist_cons_self _ _
        · rw [before] at promised
          exact (List.mem_cons.mp promised).resolve_left (Ne.symm (silent f))
      cases c with
      | zrem m =>
        have idles : Idles x.core y.core := core ▸ Idles.of_same rfl rfl rfl
        exact idles.appends (shorter (fun _ same => by cases same))
      | rpush e d =>
        have idles : Idles x.core y.core := core ▸ Idles.of_one rfl rfl rfl trivial
        exact idles.appends (shorter (fun _ same => by cases same))
      | xadd f => exact .append running pc goes others core

end World

end Relay
