import Relay.Properties.ReplayPaths

/-!
# What does a replay touch?

Exactly the dead deliveries that the request asks for. An empty list of ids asks
for none of them and is read as no list, so it replays them all.
-/

namespace Relay.Api

open Enqueue RetryQueue Transition

/-- The dead deliveries of the endpoint, of a given list only those on it. -/
def asked (db : Db) (body : ReplayRequest) : List Delivery :=
  match body.deliveryIds with
  | none => db.dead body.endpointId
  | some ids => (db.dead body.endpointId).filter (fun d => d.id ∈ ids)

def fieldsOf (d : Delivery) : Fields := ⟨d.id, d.eventId, d.endpointId⟩

/-- RPUSH, for an ordered endpoint, and then XADD. -/
def entriesOf (ordering : Ordering) (d : Delivery) : List LogEntry :=
  (if ordering = .ordered then [.rpush d.endpointId d.id] else []) ++ [.xadd .replay (fieldsOf d)]

/-- The rows of the endpoint are reset and requeued once each, and nothing else changes. -/
structure Replayed (streamShards : Nat) (e : Endpoint) (rows : List Delivery) (s s' : Store) :
    Prop where
  once : (rows.map Delivery.id).Nodup
  deliveries : ∀ id, s'.db.delivery id =
    (s.db.delivery id).map (fun d => if d ∈ rows then requeued d else d)
  keys : s'.db.deliveries.map Delivery.id = s.db.deliveries.map Delivery.id
  tables : { s'.db with deliveries := s.db.deliveries } = s.db
  retries : ∀ m, s'.queues.retries.score m =
    if m ∈ rows.map (Replay.memberOf streamShards) then none else s.queues.retries.score m
  streams : s'.queues.streams =
    (rows.map fieldsOf).foldl (appendTo streamShards) s.queues.streams
  ordered : ∀ id, s'.ordered id =
    s.ordered id ++ if id = e.id ∧ e.ordering = .ordered then rows.map Delivery.id else []
  log : ∃ commits, s'.log = (rows.flatMap (entriesOf e.ordering)).reverse ++
    (commits ++ s.log) ∧
    ∀ entry ∈ commits, ∃ row, entry = .committed .requeued row
  breakers : s'.breakers =
    if rows = [] then s.breakers else Function.update s.breakers e.id CircuitBreaker.reset
  rest : { s' with
    db := s.db
    queues := s.queues
    ordered := s.ordered
    breakers := s.breakers
    log := s.log } = s

/-- The response lists the deliveries that were asked for, and only these were replayed. -/
def ReplaysAsked (streamShards : Nat) (body : ReplayRequest) (e : Endpoint) (s s' : Store)
    (response : Except ApiError (List Uuid)) : Prop :=
  response = .ok ((asked s.db body).map Delivery.id) ∧
    Replayed streamShards e (asked s.db body) s s'

/-! What the commands append and remove -/

def Command.logged (source : Source) : Command → Option LogEntry
  | .zrem _ => none
  | .rpush e d => some (.rpush e d)
  | .xadd f => some (.xadd source f)

theorem entries_execAll (streamShards : Nat) (source : Source) (s : Store)
    (commands : List Command) :
    (execAll streamShards source s commands).log =
      (commands.filterMap (Command.logged source)).reverse ++ s.log := by
  unfold execAll
  induction commands generalizing s with
  | nil => rfl
  | cons c rest ih =>
    rw [List.foldl_cons, ih]
    cases c with
    | zrem m => rfl
    | rpush e d => simp [Command.exec, Command.logged, Store.enqueueOrdered]
    | xadd f => simp [Command.exec, Command.logged, Store.enqueueDelivery]

theorem logged_commands (streamShards : Nat) (ordering : Ordering) (rows : List Delivery) :
    (Replay.commands streamShards ordering rows).filterMap (Command.logged .replay) =
      rows.flatMap (entriesOf ordering) := by
  unfold Replay.commands
  induction rows with
  | nil => rfl
  | cons d rest ih =>
    rw [List.flatMap_cons, List.filterMap_append, ih, List.flatMap_cons]
    cases ordering <;> rfl

theorem appends_commands (streamShards : Nat) (ordering : Ordering) (rows : List Delivery) :
    (Replay.commands streamShards ordering rows).filterMap Command.appends = rows.map fieldsOf := by
  unfold Replay.commands
  induction rows with
  | nil => rfl
  | cons d rest ih =>
    rw [List.flatMap_cons, List.filterMap_append, ih]
    cases ordering <;> rfl

theorem pushes_commands {streamShards : Nat} {ordering : Ordering} {rows : List Delivery}
    {endpointId : Uuid} (here : ∀ d ∈ rows, d.endpointId = endpointId) (id : Uuid) :
    (Replay.commands streamShards ordering rows).filterMap (Command.pushes id) =
      if id = endpointId ∧ ordering = .ordered then rows.map Delivery.id else [] := by
  cases ordering with
  | unordered => simp [pushes_unordered]
  | ordered =>
    by_cases own : id = endpointId
    · subst own
      simpa using pushes_replay streamShards rows id here
    · rw [if_neg (fun both => own both.1)]
      unfold Replay.commands
      induction rows with
      | nil => rfl
      | cons d rest ih =>
        have other : d.endpointId ≠ id := fun same => own (same ▸ here d List.mem_cons_self)
        rw [List.flatMap_cons, List.filterMap_append,
          ih (fun a listed => here a (List.mem_cons_of_mem _ listed))]
        simp [Replay.commandsOf, Command.enqueueInOrder, Command.enqueue, Command.pushes, other,
          List.filterMap_cons]

theorem score_execAll (streamShards : Nat) (source : Source) (s : Store) (commands : List Command)
    (m : Member) :
    (execAll streamShards source s commands).queues.retries.score m =
      if m ∈ commands.filterMap Command.removes then none else s.queues.retries.score m := by
  unfold execAll
  induction commands generalizing s with
  | nil => rfl
  | cons c rest ih =>
    rw [List.foldl_cons, ih]
    cases c with
    | zrem a =>
      change (if _ then none else (s.queues.retries.zrem a).score m) = _
      rw [ZSet.score_zrem]
      by_cases own : m = a <;> simp [Command.removes, own]
    | rpush e d => rfl
    | xadd f => rfl

theorem commits_commitRequeued (s : Store) (rows : List Delivery) :
    ∃ commits, (commitRequeued s rows).log = commits ++ s.log ∧
      ∀ entry ∈ commits, ∃ row, entry = .committed .requeued row := by
  unfold commitRequeued
  induction rows generalizing s with
  | nil => exact ⟨[], rfl, fun _ listed => absurd listed List.not_mem_nil⟩
  | cons row rest ih =>
    obtain ⟨later, log, requeues⟩ := ih (s.commitDelivery .requeued row (requeued row))
    refine ⟨later ++ ((s.db.delivery row.id).map
      (fun old => LogEntry.committed .requeued (row.flush (requeued row) old))).toList, ?_, ?_⟩
    · rw [List.foldl_cons, log, List.append_assoc]
      rfl
    · intro entry listed
      rcases List.mem_append.mp listed with new | own
      · exact requeues entry new
      · obtain ⟨old, _, same⟩ := Option.map_eq_some_iff.mp (Option.mem_toList.mp own)
        exact ⟨_, same.symm⟩

theorem keys_commitRequeued (s : Store) (rows : List Delivery) :
    (commitRequeued s rows).db.deliveries.map Delivery.id = s.db.deliveries.map Delivery.id := by
  unfold commitRequeued
  induction rows generalizing s with
  | nil => rfl
  | cons row rest ih =>
    rw [List.foldl_cons, ih]
    exact Table.keys_update (fun _ => rfl)

/-! The request -/

section Request

variable {streamShards : Nat} {s : Store} {e : Endpoint} {rows : List Delivery}

/-- The rows that the commit resets are the ones it was given. -/
theorem requeued_rows (distinct : (s.db.deliveries.map Delivery.id).Nodup)
    (once : (rows.map Delivery.id).Nodup)
    (stored : ∀ d ∈ rows, d ∈ s.db.deliveries) (id : Uuid) :
    (commitRequeued s rows).db.delivery id =
      (s.db.delivery id).map (fun d => if d ∈ rows then requeued d else d) := by
  have present : ∀ d ∈ rows, s.db.delivery d.id = some d := fun d listed =>
    Table.get_of_mem distinct (stored d listed)
  obtain ⟨reset, others⟩ := delivery_commitRequeued s once present
  by_cases listed : id ∈ rows.map Delivery.id
  · obtain ⟨d, row, rfl⟩ := List.mem_map.mp listed
    rw [reset d row, present d row, Option.map_some, if_pos row]
  · rw [others id listed]
    cases found : s.db.delivery id with
    | none => rfl
    | some d =>
      have absent : d ∉ rows := fun row =>
        listed (List.mem_map.mpr ⟨d, row, Db.delivery_id found⟩)
      rw [Option.map_some, if_neg absent]

theorem requeueRows_replayed (distinct : (s.db.deliveries.map Delivery.id).Nodup)
    (once : (rows.map Delivery.id).Nodup) (stored : ∀ d ∈ rows, d ∈ s.db.deliveries)
    (here : ∀ d ∈ rows, d.endpointId = e.id) :
    Replayed streamShards e rows s (Replay.requeueRows streamShards s e rows) := by
  obtain ⟨deliveries, log, committed⟩ := commitRequeued_frame s rows
  have reset := requeued_rows distinct once stored
  have keys := keys_commitRequeued s rows
  have commits := commits_commitRequeued s rows
  unfold Replay.requeueRows
  by_cases empty : rows = []
  · subst empty
    rw [if_pos rfl]
    have pushed (id : Uuid) : (commitRequeued s []).ordered id = s.ordered id ++
        if id = e.id ∧ e.ordering = .ordered then List.map Delivery.id [] else [] := by
      rw [List.map_nil, ite_self, List.append_nil]
      rfl
    exact ⟨once, reset, keys, rfl, fun _ => rfl, rfl, pushed, commits, rfl, rfl⟩
  · rw [if_neg empty]
    obtain ⟨queues, ordered, log', executed⟩ := execAll_frame streamShards .replay
      ((commitRequeued s rows).resetBreaker e.id) (Replay.commands streamShards e.ordering rows)
    have db : (execAll streamShards .replay ((commitRequeued s rows).resetBreaker e.id)
        (Replay.commands streamShards e.ordering rows)).db = (commitRequeued s rows).db :=
      db_execAll .replay _ _
    refine ⟨once, ?deliveries, ?keys, ?tables, fun m => ?retries, ?streams, fun id => ?ordered,
      ?log, ?breakers, ?rest⟩
    case deliveries =>
      rw [db]
      exact reset
    case keys =>
      rw [db]
      exact keys
    case tables =>
      rw [db]
      change { (commitRequeued s rows).db with deliveries := s.db.deliveries } = s.db
      rw [committed]
    case retries =>
      rw [score_execAll, removes_replay]
      change (if _ then none else (commitRequeued s rows).queues.retries.score m) = _
      rw [committed]
    case streams =>
      rw [streams_execAll, appends_commands]
      change List.foldl _ (commitRequeued s rows).queues.streams _ = _
      rw [committed]
    case ordered =>
      rw [ordered_execAll, pushes_commands here]
      change (commitRequeued s rows).ordered id ++ _ = _
      rw [committed]
    case log =>
      obtain ⟨entries, logged, requeues⟩ := commits
      refine ⟨entries, ?_, requeues⟩
      rw [entries_execAll, logged_commands, ← logged]
      rfl
    case breakers =>
      rw [executed, if_neg empty]
      change Function.update (commitRequeued s rows).breakers e.id CircuitBreaker.reset = _
      rw [committed]
    case rest =>
      rw [executed]
      change { commitRequeued s rows with
        db := s.db
        queues := s.queues
        ordered := s.ordered
        breakers := s.breakers
        log := s.log } = s
      rw [committed]

/-- A replay serves what was asked, unless the list is empty and something is dead. -/
theorem asked_eq_selected (db : Db) (body : ReplayRequest) :
    asked db body = Replay.selected db body ∨
      (body.deliveryIds = some [] ∧ asked db body = [] ∧
        Replay.selected db body = db.dead body.endpointId) := by
  unfold asked Replay.selected
  cases body.deliveryIds with
  | none => exact Or.inl rfl
  | some ids =>
    cases ids with
    | nil => exact Or.inr ⟨rfl, by simp, rfl⟩
    | cons id rest => exact Or.inl rfl

end Request

/-- A replay touches exactly what was asked for, but for an empty list of ids. -/
theorem replay_targets (streamShards : Nat) (s : Store) (e : Endpoint) (tenantId : Uuid)
    (body : ReplayRequest) (endpoint : s.db.endpoint body.endpointId = some e)
    (mine : e.tenantId = tenantId)
    (distinct : (s.db.deliveries.map Delivery.id).Nodup) :
    ∃ s' response, Ends (Replay.alone streamShards) (s, Replay.start tenantId body)
        (s', ⟨tenantId, body, .done response⟩) ∧
      (ReplaysAsked streamShards body e s s' response ↔
        ¬ (body.deliveryIds = some [] ∧ s.db.dead body.endpointId ≠ [])) := by
  have key : e.id = body.endpointId := Db.endpoint_id endpoint
  have owns : body.endpointId ∈ s.db.tenantEndpointIds tenantId := by
    rw [← key, ← mine]
    exact owned (key ▸ endpoint)
  have served : Replay.served streamShards s tenantId body =
      (Replay.requeueRows streamShards s e (Replay.selected s.db body),
        .ok ((Replay.selected s.db body).map Delivery.id)) := by
    simp only [Replay.served, if_pos owns, endpoint]
  have dead {d : Delivery} (listed : d ∈ Replay.selected s.db body) :=
    Replay.selected_dead listed
  have once : ((Replay.selected s.db body).map Delivery.id).Nodup := by
    refine distinct.sublist (List.Sublist.map _ ?_)
    unfold Replay.selected
    split
    · exact List.filter_sublist
    · exact List.filter_sublist
    · exact List.filter_sublist.trans List.filter_sublist
  have replayed : Replayed streamShards e (Replay.selected s.db body) s
      (Replay.requeueRows streamShards s e (Replay.selected s.db body)) :=
    requeueRows_replayed distinct once (fun d listed => (dead listed).1)
      (fun d listed => (dead listed).2.1.trans key.symm)
  refine ⟨_, _, Replay.ends_served streamShards s tenantId body
    (fun _ => Option.isSome_iff_exists.mpr ⟨e, endpoint⟩), ?_⟩
  rw [served]
  constructor
  · rintro ⟨response, only⟩ ⟨emptyList, some⟩
    have all : Replay.selected s.db body = s.db.dead body.endpointId := by
      unfold Replay.selected
      rw [emptyList]
    have none : asked s.db body = [] := by
      unfold asked
      rw [emptyList]
      simp
    rw [all, none] at response
    exact some (List.map_eq_nil_iff.mp (Except.ok.inj response))
  · intro given
    have same : asked s.db body = Replay.selected s.db body := by
      rcases asked_eq_selected s.db body with same | ⟨emptyList, none, all⟩
      · exact same
      · have nobody : s.db.dead body.endpointId = [] := by
          by_contra some
          exact given ⟨emptyList, some⟩
        rw [none, all, nobody]
    exact ⟨congrArg (fun rows => Except.ok (rows.map Delivery.id)) same.symm, same ▸ replayed⟩

/-- Ids that are not dead are left out. -/
theorem replay_targets_some :
    ∃ s' response, Ends (Replay.alone 8)
      (deadLetter .ordered, Replay.start 2 ⟨1, some [11, 99]⟩)
        (s', ⟨2, ⟨1, some [11, 99]⟩, .done response⟩) ∧
      ReplaysAsked 8 ⟨1, some [11, 99]⟩ { id := 1, tenantId := 2, ordering := .ordered }
        (deadLetter .ordered) s' response := by
  obtain ⟨s', response, ends, iff⟩ := replay_targets 8 (deadLetter .ordered)
    { id := 1, tenantId := 2, ordering := .ordered } 2 ⟨1, some [11, 99]⟩
      (by decide +kernel) rfl
    (by decide +kernel)
  exact ⟨s', response, ends, iff.mpr (fun given => by cases given.1)⟩

/-- An empty list of ids resets and enqueues the one dead delivery. -/
theorem replay_targets_empty : ∃ s' response,
    Ends (Replay.alone 8) (deadLetter .unordered, Replay.start 2 ⟨1, some []⟩)
        (s', ⟨2, ⟨1, some []⟩, .done response⟩) ∧
      ¬ ReplaysAsked 8 ⟨1, some []⟩ { id := 1, tenantId := 2 } (deadLetter .unordered) s'
        response := by
  have ends := Replay.ends_served 8 (deadLetter .unordered) 2 ⟨1, some []⟩ (by decide +kernel)
  refine ⟨_, _, ends, ?_⟩
  rintro ⟨_, only⟩
  have reset : ((Replay.served 8 (deadLetter .unordered) 2 ⟨1, some []⟩).1.db.delivery 11).map
      Delivery.status = some .pending := by decide +kernel
  have kept := only.deliveries 11
  rw [kept] at reset
  revert reset
  decide +kernel

end Relay.Api
