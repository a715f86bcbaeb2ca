import Relay.Api.Decisions
import Relay.Properties.ReplayPaths

/-!
# Is an action decided once?

Neither decision locks the row that it checks. Where no request reads the action
as pending while another that did has not committed, one request wins, the others
are refused, and the effect is applied exactly once if the winner approved. Where
two of them read it as pending, both succeed.
-/

namespace Relay.Api

open Transition

/-! How often a commit and its commands append -/

theorem log_execAll (streamShards : Nat) (source : Source) (s : Store) (commands : List Command)
    (f : Enqueue.Fields) :
    (execAll streamShards source s commands).log.count (.xadd source f) =
      s.log.count (.xadd source f) + commands.count (.xadd f) := by
  unfold execAll
  induction commands generalizing s with
  | nil => rfl
  | cons c rest ih =>
    rw [List.foldl_cons, ih, List.count_cons]
    cases c with
    | xadd g =>
      simp only [Command.exec, Store.enqueueDelivery, List.count_cons, beq_iff_eq,
        LogEntry.xadd.injEq, Command.xadd.injEq, true_and]
      omega
    | zrem m => simp [Command.exec, Store.removeFromRetryQueue]
    | rpush e d => simp [Command.exec, Store.enqueueOrdered]

theorem log_commitRequeued (s : Store) (rows : List Delivery) (source : Source)
    (f : Enqueue.Fields) :
    (commitRequeued s rows).log.count (.xadd source f) = s.log.count (.xadd source f) := by
  unfold commitRequeued
  induction rows generalizing s with
  | nil => rfl
  | cons row rest ih =>
    rw [List.foldl_cons, ih]
    simp only [Store.commitDelivery, List.count_append]
    cases s.db.delivery row.id <;> simp

theorem count_enqueue {rows : List Delivery} (distinct : (rows.map Delivery.id).Nodup)
    {d : Delivery} (listed : d ∈ rows) :
    (Approve.commands rows).count (Command.enqueue d) = 1 := by
  have nodup : (Approve.commands rows).Nodup := by
    refine List.Nodup.map_on (fun a first b second same => ?_) (List.Nodup.of_map _ distinct)
    have ids : a.id = b.id := congrArg Enqueue.Fields.deliveryId (Command.xadd.inj same)
    exact List.inj_on_of_nodup_map distinct first second ids
  exact List.count_eq_one_of_mem nodup (List.mem_map_of_mem listed)

theorem tenantEndpointIds_setEndpointStatus (db : Db) (id : Uuid) (status : EndpointStatus)
    (tenantId : Uuid) :
    (db.setEndpointStatus id status).tenantEndpointIds tenantId =
    db.tenantEndpointIds tenantId := by
  unfold Db.setEndpointStatus Db.tenantEndpointIds Table.update
  induction db.endpoints with
  | nil => rfl
  | cons e rest ih =>
    simp only [List.map_cons, List.filter_cons]
    by_cases key : e.id = id <;> by_cases mine : e.tenantId = tenantId <;> simp_all

/-! What a decision leaves -/

/-- Everything but the action rows is as before. -/
def Unapplied (s₀ s : Store) : Prop :=
  { s with db := { s.db with actions := s₀.db.actions } } = s₀

/-- The endpoint is paused and, the action rows apart, nothing else has changed. -/
structure PausedOnce (e : Endpoint) (s₀ s : Store) : Prop where
  endpoint : s.db.endpoint e.id = some { e with status := .paused }
  others : ∀ id, id ≠ e.id → s.db.endpoint id = s₀.db.endpoint id
  rest : { s with db := { s.db with actions := s₀.db.actions, endpoints := s₀.db.endpoints } } =
    s₀

/-- Each dead delivery of the endpoint is reset and enqueued once, no other one is. -/
structure ReplayedOnce (e : Endpoint) (s₀ s : Store) : Prop where
  endpoints : s.db.endpoints = s₀.db.endpoints
  rows : ∀ d ∈ s₀.db.dead e.id, s.db.delivery d.id = some (requeued d)
  others : ∀ id, id ∉ (s₀.db.dead e.id).map Delivery.id →
    s.db.delivery id = s₀.db.delivery id
  enqueued : ∀ d ∈ s₀.db.dead e.id,
    s.log.count (.xadd .approve ⟨d.id, d.eventId, d.endpointId⟩) =
    s₀.log.count (.xadd .approve ⟨d.id, d.eventId, d.endpointId⟩) + 1
  unsent : ∀ f : Enqueue.Fields, f.deliveryId ∉ (s₀.db.dead e.id).map Delivery.id →
    s.log.count (.xadd .approve f) = s₀.log.count (.xadd .approve f)

def AppliedOnce (a : AgentAction) (e : Endpoint) (s₀ s : Store) : Prop :=
  match a.action with
  | .pauseEndpoint => PausedOnce e s₀ s
  | .replayDlq => ReplayedOnce e s₀ s

theorem Approve.paused_once {s : Store} {e : Endpoint} (a : AgentAction) (clock : ℚ)
    (endpoint : s.db.endpoint e.id = some e) : PausedOnce e s (paused s e a clock) := by
  unfold paused
  by_cases already : e.status = .paused
  · rw [if_pos already]
    refine ⟨?_, fun _ _ => rfl, rfl⟩
    rw [← already]
    exact endpoint
  · rw [if_neg already]
    have found (id : Uuid) : (s.setEndpointStatus e.id .paused).db.endpoint id =
        if id = e.id then (s.db.endpoint id).map (fun e => { e with status := .paused })
        else s.db.endpoint id := Table.get_update (fun _ => rfl)
    refine ⟨?_, fun id other => ?_, rfl⟩
    · refine (found e.id).trans ?_
      rw [if_pos rfl, endpoint]
      rfl
    · exact (found id).trans (if_neg other)

theorem Approve.replayed_once (streamShards : Nat) (clock : ℚ) {s : Store} (e : Endpoint)
    (a : AgentAction) (distinct : (s.db.deliveries.map Delivery.id).Nodup) :
    ReplayedOnce e s (Approve.result streamShards clock s e a) := by
  have ids : ((s.db.dead e.id).map Delivery.id).Nodup :=
    distinct.sublist (List.filter_sublist.map Delivery.id)
  have present : ∀ d ∈ s.db.dead e.id, s.db.delivery d.id = some d := fun d listed =>
    Table.get_of_mem distinct (List.mem_of_mem_filter listed)
  obtain ⟨rows, others⟩ := delivery_commitRequeued s ids present
  obtain ⟨deliveries, log, committed⟩ := commitRequeued_frame s (s.db.dead e.id)
  unfold Approve.result
  by_cases empty : s.db.dead e.id = []
  · simp only [if_pos empty]
    have nobody (d : Delivery) : d ∉ s.db.dead e.id := empty ▸ List.not_mem_nil
    rw [empty]
    exact ⟨rfl, fun d h => absurd h (nobody d), fun _ _ => rfl,
      fun d h => absurd h (nobody d), fun _ _ => rfl⟩
  · simp only [if_neg empty]
    obtain ⟨queues, ordered, log', issued⟩ := execAll_frame streamShards .approve
      ((decide (commitRequeued s (s.db.dead e.id)) a clock).resetBreaker e.id)
      (commands (s.db.dead e.id))
    have counts (f : Enqueue.Fields) := (log_execAll streamShards .approve
      ((decide (commitRequeued s (s.db.dead e.id)) a clock).resetBreaker e.id)
      (commands (s.db.dead e.id)) f).trans
        (congrArg (· + _) (log_commitRequeued s (s.db.dead e.id) .approve f))
    refine ⟨?_, ?_, ?_, fun d listed => ?_, fun f absent => ?_⟩
    · rw [issued]
      change (commitRequeued s (s.db.dead e.id)).db.endpoints = _
      rw [committed]
    · rw [issued]
      exact rows
    · rw [issued]
      exact others
    · rw [counts]
      exact congrArg (_ + ·) (count_enqueue ids listed)
    · have none : (commands (s.db.dead e.id)).count (.xadd f) = 0 := by
        refine List.count_eq_zero_of_not_mem (fun listed => ?_)
        obtain ⟨d, row, same⟩ := List.mem_map.mp listed
        cases same
        exact absent (List.mem_map_of_mem row)
      rw [counts, none]
      rfl

/-! The requests, from the store in which the action is still pending -/

section Phases

variable {streamShards : Nat} {clock : ℚ} {s₀ s s' : Store} {a row : AgentAction} {e : Endpoint}
  {q q' : Decider}

/-- 409 for a tenant that owns the endpoint, 404 for any other. -/
def Refused (s₀ : Store) (a : AgentAction) (tenantId : Uuid) (err : ApiError) : Prop :=
  if a.endpointId ∈ s₀.db.tenantEndpointIds tenantId then
    ∃ status, status ≠ .pending ∧ err = Approve.alreadyDecided status
  else err = notFound "action"

/-- Not past the check, or refused. -/
inductive Waiting (s₀ : Store) (a : AgentAction) : Decider → Prop
  | approveOwned (t) : Waiting s₀ a (.approve ⟨t, a.id, .owned⟩)
  | approveLoad (t) : Waiting s₀ a
      (.approve ⟨t, a.id, .loadAction (s₀.db.tenantEndpointIds t)⟩)
  | approveRefused (t) {err} (refused : Refused s₀ a t err) :
      Waiting s₀ a (.approve ⟨t, a.id, .done (.error err)⟩)
  | rejectOwned (t) : Waiting s₀ a (.reject ⟨t, a.id, .owned⟩)
  | rejectLoad (t) : Waiting s₀ a
      (.reject ⟨t, a.id, .loadAction (s₀.db.tenantEndpointIds t)⟩)
  | rejectRefused (t) {err} (refused : Refused s₀ a t err) :
      Waiting s₀ a (.reject ⟨t, a.id, .done (.error err)⟩)

/-- Past the check and not committed. -/
inductive Chosen (s₀ : Store) (a : AgentAction) (e : Endpoint) : Decider → Prop
  | loadEndpoint {t} (owns : a.endpointId ∈ s₀.db.tenantEndpointIds t) :
      Chosen s₀ a e (.approve ⟨t, a.id, .loadEndpoint a⟩)
  | selectDead {t} (owns : a.endpointId ∈ s₀.db.tenantEndpointIds t)
      (kind : a.action = .replayDlq) : Chosen s₀ a e (.approve ⟨t, a.id, .selectDead a e⟩)
  | commitPause {t} (time) (owns : a.endpointId ∈ s₀.db.tenantEndpointIds t)
      (kind : a.action = .pauseEndpoint) :
      Chosen s₀ a e (.approve ⟨t, a.id, .commitPause a e time⟩)
  | commitReplay {t} (time) (owns : a.endpointId ∈ s₀.db.tenantEndpointIds t)
      (kind : a.action = .replayDlq) :
      Chosen s₀ a e (.approve ⟨t, a.id, .commitReplay a e (s₀.db.dead e.id) time⟩)
  | commit {t} (time) (owns : a.endpointId ∈ s₀.db.tenantEndpointIds t) :
      Chosen s₀ a e (.reject ⟨t, a.id, .commit a time⟩)

/-- The request that committed, and the store with as much of its effect as it has applied. -/
inductive Won (streamShards : Nat) (s₀ : Store) (a : AgentAction) (e : Endpoint) :
    Store → Decider → Prop
  | paused {t} (time) (owns : a.endpointId ∈ s₀.db.tenantEndpointIds t)
      (kind : a.action = .pauseEndpoint) : Won streamShards s₀ a e (Approve.paused s₀ e a time)
        (.approve ⟨t, a.id, .done (.ok (Approve.approved a time))⟩)
  | committed {t} (time) (owns : a.endpointId ∈ s₀.db.tenantEndpointIds t)
      (kind : a.action = .replayDlq) (some : s₀.db.dead e.id ≠ []) :
      Won streamShards s₀ a e (Approve.decide (commitRequeued s₀ (s₀.db.dead e.id)) a time)
        (.approve ⟨t, a.id, .reset (Approve.approved a time) e (s₀.db.dead e.id)⟩)
  | requeueing {t} (time) (owns : a.endpointId ∈ s₀.db.tenantEndpointIds t)
      (kind : a.action = .replayDlq) (some : s₀.db.dead e.id ≠ []) {issued rest : List Command}
      (split : Approve.commands (s₀.db.dead e.id) = issued ++ rest) :
      Won streamShards s₀ a e (execAll streamShards .approve
        ((Approve.decide (commitRequeued s₀ (s₀.db.dead e.id)) a time).resetBreaker e.id)
          issued)
        (.approve ⟨t, a.id, .requeue (Approve.approved a time) rest⟩)
  | replayed {t} (time) (owns : a.endpointId ∈ s₀.db.tenantEndpointIds t)
      (kind : a.action = .replayDlq) :
      Won streamShards s₀ a e (Approve.result streamShards time s₀ e a)
        (.approve ⟨t, a.id, .done (.ok (Approve.approved a time))⟩)
  | rejected {t} (time) (owns : a.endpointId ∈ s₀.db.tenantEndpointIds t) :
      Won streamShards s₀ a e (Reject.decide s₀ a time)
        (.reject ⟨t, a.id, .done (.ok (Reject.rejected a time))⟩)

/-- What the select of a request with these owned ids returns. -/
theorem select_action (found : s.db.action a.id = some row) (mine : row.endpointId = a.endpointId)
    (owned : List Uuid) :
    (s.db.action a.id).filter (fun row => row.endpointId ∈ owned) =
      if a.endpointId ∈ owned then some row else none := by
  rw [found, ← mine]
  by_cases owns : row.endpointId ∈ owned <;> simp [Option.filter, owns]

/-- The check answers, or finds the action pending. -/
theorem Waiting.step (waiting : Waiting s₀ a q) (found : s.db.action a.id = some row)
    (mine : row.endpointId = a.endpointId)
    (owners : ∀ t, s.db.tenantEndpointIds t = s₀.db.tenantEndpointIds t)
    (next : q.step streamShards clock s = some (s', q')) :
    s' = s ∧ (Waiting s₀ a q' ∨
      (row.status = .pending ∧ q.readsPending s = true ∧
        (row = a → Chosen s₀ a e q'))) := by
  have selected (t : Uuid) := select_action found mine (s₀.db.tenantEndpointIds t)
  cases waiting with
  | approveOwned t =>
    simp only [Decider.step, Approve.step, owners, Option.map_some] at next
    cases next
    exact ⟨rfl, Or.inl (.approveLoad t)⟩
  | rejectOwned t =>
    simp only [Decider.step, Reject.step, owners, Option.map_some] at next
    cases next
    exact ⟨rfl, Or.inl (.rejectLoad t)⟩
  | approveRefused t _ => cases next
  | rejectRefused t _ => cases next
  | approveLoad t =>
    simp only [Decider.step, Approve.step, selected] at next
    by_cases owns : a.endpointId ∈ s₀.db.tenantEndpointIds t
    · simp only [if_pos owns] at next
      by_cases pending : row.status = .pending
      · simp only [if_pos pending, Option.map_some] at next
        cases next
        refine ⟨rfl, Or.inr
          ⟨pending, ?_, fun same => by subst same; exact .loadEndpoint owns⟩⟩
        simp [Decider.readsPending, Decider.readsPending.selects, selected, owns, pending]
      · simp only [if_neg pending, Option.map_some] at next
        cases next
        exact ⟨rfl, Or.inl (.approveRefused t ((if_pos owns).mpr ⟨_, pending, rfl⟩))⟩
    · simp only [if_neg owns, Option.map_some] at next
      cases next
      exact ⟨rfl, Or.inl (.approveRefused t ((if_neg owns).mpr rfl))⟩
  | rejectLoad t =>
    simp only [Decider.step, Reject.step, selected] at next
    by_cases owns : a.endpointId ∈ s₀.db.tenantEndpointIds t
    · simp only [if_pos owns] at next
      by_cases pending : row.status = .pending
      · simp only [if_pos pending, Option.map_some] at next
        cases next
        refine ⟨rfl, Or.inr
          ⟨pending, ?_, fun same => by subst same; exact .commit clock owns⟩⟩
        simp [Decider.readsPending, Decider.readsPending.selects, selected, owns, pending]
      · simp only [if_neg pending, Option.map_some] at next
        cases next
        exact ⟨rfl, Or.inl (.rejectRefused t ((if_pos owns).mpr ⟨_, pending, rfl⟩))⟩
    · simp only [if_neg owns, Option.map_some] at next
      cases next
      exact ⟨rfl, Or.inl (.rejectRefused t ((if_neg owns).mpr rfl))⟩

/-- The one that found it pending goes on undisturbed, or commits. -/
theorem Chosen.step (chosen : Chosen s₀ a e q) (endpoint : s₀.db.endpoint e.id = some e)
    (mine : a.endpointId = e.id) (next : q.step streamShards clock s₀ = some (s', q')) :
    (s' = s₀ ∧ Chosen s₀ a e q') ∨ Won streamShards s₀ a e s' q' := by
  cases chosen with
  | loadEndpoint owns =>
    simp only [Decider.step, Approve.step, mine, endpoint] at next
    cases kind : a.action with
    | pauseEndpoint =>
      simp only [kind, Option.map_some] at next
      cases next
      exact Or.inl ⟨rfl, .commitPause clock owns kind⟩
    | replayDlq =>
      simp only [kind, Option.map_some] at next
      cases next
      exact Or.inl ⟨rfl, .selectDead owns kind⟩
  | selectDead owns kind =>
    cases next
    exact Or.inl ⟨rfl, .commitReplay clock owns kind⟩
  | commitPause time owns kind =>
    cases next
    exact Or.inr (.paused time owns kind)
  | commitReplay time owns kind =>
    have present : Approve.Present s₀.db (s₀.db.dead e.id) := dead_present s₀ e.id
    simp only [Decider.step, Approve.step, if_pos present, Option.map_some] at next
    by_cases empty : s₀.db.dead e.id = []
    · have result : Approve.result streamShards time s₀ e a =
          Approve.decide (commitRequeued s₀ (s₀.db.dead e.id)) a time := if_pos empty
      simp only [if_pos empty, ← result] at next
      cases next
      exact Or.inr (.replayed time owns kind)
    · simp only [if_neg empty] at next
      cases next
      exact Or.inr (.committed time owns kind empty)
  | commit time owns =>
    cases next
    exact Or.inr (.rejected time owns)

/-- The winner goes on with its effect. -/
theorem Won.step (won : Won streamShards s₀ a e s q)
    (next : q.step streamShards clock s = some (s', q')) : Won streamShards s₀ a e s' q' := by
  cases won with
  | paused => cases next
  | replayed => cases next
  | rejected => cases next
  | committed time owns kind some =>
    cases next
    exact .requeueing time owns kind some (List.nil_append _).symm
  | @requeueing t time owns kind some issued rest split =>
    cases rest with
    | nil =>
      have result : Approve.result streamShards time s₀ e a = execAll streamShards .approve
          ((Approve.decide (commitRequeued s₀ (s₀.db.dead e.id)) a time).resetBreaker e.id)
          issued := by
        rw [← List.append_nil issued, ← split]
        exact if_neg some
      rw [← result] at next
      cases next
      exact .replayed time owns kind
    | cons c rest =>
      have issues : execAll streamShards .approve
          ((Approve.decide (commitRequeued s₀ (s₀.db.dead e.id)) a time).resetBreaker e.id)
          (issued ++ [c]) = c.exec streamShards .approve (execAll streamShards .approve
          ((Approve.decide (commitRequeued s₀ (s₀.db.dead e.id)) a time).resetBreaker e.id)
          issued) := List.foldl_append
      cases next
      rw [← issues]
      exact .requeueing time owns kind some (split.trans (List.append_cons issued c rest))

/-! The store of a winner -/

theorem action_decide (found : s.db.action a.id = some a) (time : ℚ) :
    (Approve.decide s a time).db.action a.id = some (Approve.approved a time) :=
  (Table.get_update_self (f := fun row => Approve.approved row time) (fun _ => rfl)).trans
    (congrArg (Option.map _) found)

theorem action_requeued (found : s₀.db.action a.id = some a) (rows : List Delivery) :
    (commitRequeued s₀ rows).db.action a.id = some a := by
  obtain ⟨deliveries, log, committed⟩ := commitRequeued_frame s₀ rows
  rw [committed]
  exact found

theorem owners_requeued (rows : List Delivery) (t : Uuid) :
    (commitRequeued s₀ rows).db.tenantEndpointIds t = s₀.db.tenantEndpointIds t := by
  obtain ⟨deliveries, log, committed⟩ := commitRequeued_frame s₀ rows
  rw [committed]
  rfl

theorem Approve.db_result (time : ℚ) : (Approve.result streamShards time s₀ e a).db =
    (Approve.decide (commitRequeued s₀ (s₀.db.dead e.id)) a time).db := by
  unfold Approve.result
  by_cases empty : s₀.db.dead e.id = []
  · simp only [if_pos empty]
  · simp only [if_neg empty, db_execAll]
    rfl

/-- The status that the winner has given the action. -/
def Decider.decision : Decider → ActionStatus
  | .approve _ => .approved
  | .reject _ => .rejected

theorem Won.written (won : Won streamShards s₀ a e s q) (found : s₀.db.action a.id = some a) :
    ∃ row, s.db.action a.id = some row ∧ row.endpointId = a.endpointId ∧
      row.status = q.decision := by
  have requeued (time : ℚ) :
      (Approve.decide (commitRequeued s₀ (s₀.db.dead e.id)) a time).db.action a.id =
        some (Approve.approved a time) := action_decide (action_requeued found _) time
  cases won with
  | paused time _ kind =>
    refine ⟨_, action_decide (s := if e.status = .paused then s₀ else
      s₀.setEndpointStatus e.id .paused) ?_ time, rfl, rfl⟩
    split
    · exact found
    · exact found
  | committed time => exact ⟨_, requeued time, rfl, rfl⟩
  | requeueing time =>
    refine ⟨Approve.approved a time, ?_, rfl, rfl⟩
    rw [db_execAll]
    exact requeued time
  | replayed time =>
    refine ⟨Approve.approved a time, ?_, rfl, rfl⟩
    rw [Approve.db_result]
    exact requeued time
  | rejected time =>
    exact ⟨_, (Table.get_update_self (f := fun row => Reject.rejected row time)
      (fun _ => rfl)).trans (congrArg (Option.map _) found), rfl, rfl⟩

theorem Won.owners (won : Won streamShards s₀ a e s q) (t : Uuid) :
    s.db.tenantEndpointIds t = s₀.db.tenantEndpointIds t := by
  cases won with
  | paused =>
    change (ite _ s₀ (s₀.setEndpointStatus e.id .paused)).db.tenantEndpointIds t = _
    split
    · rfl
    · exact tenantEndpointIds_setEndpointStatus s₀.db e.id .paused t
  | committed => exact owners_requeued _ t
  | requeueing =>
    rw [db_execAll]
    exact owners_requeued _ t
  | replayed =>
    rw [Approve.db_result]
    exact owners_requeued _ t
  | rejected => rfl

/-- Once it has answered, its effect is there exactly once. -/
theorem Won.applied (won : Won streamShards s₀ a e s q) (answered : q.answer.isSome = true)
    (endpoint : s₀.db.endpoint e.id = some e)
    (distinct : (s₀.db.deliveries.map Delivery.id).Nodup) :
    (q.decision = .approved → AppliedOnce a e s₀ s) ∧
      (q.decision ≠ .approved → Unapplied s₀ s) := by
  unfold AppliedOnce
  cases won with
  | paused time _ kind =>
    rw [kind]
    exact ⟨fun _ => Approve.paused_once a time endpoint, fun other => absurd rfl other⟩
  | committed => cases answered
  | requeueing => cases answered
  | replayed time _ kind =>
    rw [kind]
    exact ⟨fun _ => Approve.replayed_once streamShards time e a distinct,
      fun other => absurd rfl other⟩
  | rejected time => exact ⟨fun approved => (by cases approved), fun _ => rfl⟩

/-! What the requests answer -/

/-- What every request may answer. -/
def Answered (s₀ : Store) (a : AgentAction) (q : Decider) : Prop :=
  ∀ result ∈ q.answer,
    (∃ row, result = .ok row ∧ a.endpointId ∈ s₀.db.tenantEndpointIds q.tenantId) ∨
      ∃ err, result = .error err ∧ Refused s₀ a q.tenantId err

def Succeeded (q : Decider) : Prop := ∃ row, q.answer = some (.ok row)

instance (q : Decider) : Decidable (Succeeded q) :=
  match answer : q.answer with
  | some (.ok row) => isTrue ⟨row, answer⟩
  | some (.error _) => isFalse (fun ⟨_, h⟩ => by rw [answer] at h; cases h)
  | none => isFalse (fun ⟨_, h⟩ => by rw [answer] at h; cases h)

theorem Waiting.answers (waiting : Waiting s₀ a q) : Answered s₀ a q ∧ ¬ Succeeded q := by
  cases waiting with
  | approveOwned | approveLoad | rejectOwned | rejectLoad =>
    exact ⟨fun _ h => (by cases h), fun ⟨_, h⟩ => (by cases h)⟩
  | approveRefused t refused | rejectRefused t refused =>
    refine ⟨fun result h => ?_, fun ⟨_, h⟩ => (by cases h)⟩
    cases h
    exact Or.inr ⟨_, rfl, refused⟩

theorem Chosen.answers (chosen : Chosen s₀ a e q) : q.answer = none ∧ q.deciding = true := by
  cases chosen <;> exact ⟨rfl, rfl⟩

theorem Waiting.not_chosen (waiting : Waiting s₀ a q) : ¬ Chosen s₀ a e q := by
  intro chosen
  cases waiting <;> cases chosen

theorem Won.answers (won : Won streamShards s₀ a e s q) : Answered s₀ a q := by
  cases won with
  | committed | requeueing => exact fun _ h => by cases h
  | paused time owns | replayed time owns | rejected time owns =>
    intro result h
    cases h
    exact Or.inl ⟨_, rfl, owns⟩

end Phases

namespace Deciding

variable {streamShards : Nat} {s₀ : Store} {a : AgentAction} {e : Endpoint} {x y : Deciding}
  {l : Label}

/-- Before the first commit the store is untouched and at most one request is past
the check; after it the winner alone has an effect. -/
inductive Phase (streamShards : Nat) (s₀ : Store) (a : AgentAction) (e : Endpoint)
    (x : Deciding) : Prop
  | undecided (store : x.store = s₀)
      (each : ∀ q ∈ x.requests, Waiting s₀ a q ∨ Chosen s₀ a e q)
      (one : ∀ (r r' : Nat) (q q' : Decider), x.requests[r]? = some q →
        x.requests[r']? = some q' →
        Chosen s₀ a e q → Chosen s₀ a e q' → r = r')
  | decided {w : Nat} {q : Decider} (winner : x.requests[w]? = some q)
      (won : Won streamShards s₀ a e x.store q)
      (others : ∀ (r : Nat) (q' : Decider), x.requests[r]? = some q' → r ≠ w →
        Waiting s₀ a q')

theorem Phase.start (clock : ℚ) : Phase streamShards s₀ a e (start clock s₀) :=
  .undecided rfl (fun _ h => absurd h List.not_mem_nil) (fun _ _ _ _ h => by cases h)

theorem snoc_cases {qs : List Decider} {q q' : Decider} {r : Nat}
    (at_r : (qs ++ [q])[r]? = some q') : qs[r]? = some q' ∨ q' = q := by
  by_cases old : r < qs.length
  · rw [List.getElem?_append_left old] at at_r
    exact Or.inl at_r
  · rw [List.getElem?_append_right (by omega)] at at_r
    exact Or.inr (List.mem_singleton.mp (List.mem_of_getElem? at_r))

theorem set_cases {qs : List Decider} {q q' : Decider} {r r' : Nat}
    (at_r : (qs.set r q)[r']? = some q') :
    (r' = r ∧ q' = q) ∨ (r' ≠ r ∧ qs[r']? = some q') := by
  by_cases same : r' = r
  · subst same
    rw [List.getElem?_set_self'] at at_r
    obtain ⟨_, _, rfl⟩ := Option.map_eq_some_iff.mp at_r
    exact Or.inl ⟨rfl, rfl⟩
  · rw [List.getElem?_set_ne (Ne.symm same)] at at_r
    exact Or.inr ⟨same, at_r⟩

theorem Phase.arrive (phase : Phase streamShards s₀ a e x) {q : Decider}
    (waiting : Waiting s₀ a q) : Phase streamShards s₀ a e (x.arrive q) := by
  cases phase with
  | undecided store each one =>
    refine .undecided store (fun q' listed => ?_) (fun r r' q₁ q₂ first second c₁ c₂ => ?_)
    · rcases List.mem_append.mp listed with old | new
      · exact each q' old
      · rw [List.mem_singleton.mp new]
        exact Or.inl waiting
    · rcases snoc_cases first with old | rfl
      · rcases snoc_cases second with old' | rfl
        · exact one r r' q₁ q₂ old old' c₁ c₂
        · exact absurd c₂ waiting.not_chosen
      · exact absurd c₁ waiting.not_chosen
  | @decided w q₀ winner won others =>
    have known : w < x.requests.length := (List.getElem?_eq_some_iff.mp winner).1
    refine .decided (w := w) (q := q₀) ?_ won (fun r q' at_r other => ?_)
    · exact (List.getElem?_append_left known).trans winner
    · rcases snoc_cases at_r with old | rfl
      · exact others r q' old other
      · exact waiting

/-- One await of one request. -/
theorem Phase.serve (phase : Phase streamShards s₀ a e x)
    (found : s₀.db.action a.id = some a) (endpoint : s₀.db.endpoint e.id = some e)
    (mine : a.endpointId = e.id) {r : Nat} (admitted : x.OneDecides (.serve r))
    (next : step streamShards a.id (.serve r) x = some y) : Phase streamShards s₀ a e y := by
  simp only [Deciding.step] at next
  cases at_r : x.requests[r]? with
  | none =>
    rw [at_r] at next
    cases next
  | some q =>
    simp only [at_r] at next
    obtain ⟨⟨s', q'⟩, moves, rfl⟩ := Option.map_eq_some_iff.mp next
    have known : r < x.requests.length := (List.getElem?_eq_some_iff.mp at_r).1
    have listed : q ∈ x.requests := List.mem_of_getElem? at_r
    have now : (x.requests.set r q')[r]? = some q' := List.getElem?_set_self known
    cases phase with
    | undecided store each one =>
      rw [store] at moves
      rcases each q listed with waiting | chosen
      · -- the check
        obtain ⟨keeps, checked⟩ := waiting.step (e := e) found rfl (fun _ => rfl) moves
        have alone : Chosen s₀ a e q' → ∀ q₁ ∈ x.requests, ¬ Chosen s₀ a e q₁ := by
          intro chosen q₁ old other
          rcases checked with waiting' | ⟨_, reads, _⟩
          · exact waiting'.not_chosen chosen
          · have idle : q₁.deciding = false := admitted q at_r (store ▸ reads) q₁ old
            rw [other.answers.2] at idle
            cases idle
        refine .undecided keeps (fun q₁ h => ?_)
          (fun r₁ r₂ q₁ q₂ first second c₁ c₂ => ?_)
        · rcases List.mem_or_eq_of_mem_set h with old | rfl
          · exact each q₁ old
          · exact checked.imp_right (fun passes => passes.2.2 rfl)
        · rcases set_cases first with ⟨rfl, rfl⟩ | ⟨_, old₁⟩ <;>
            rcases set_cases second with ⟨rfl, rfl⟩ | ⟨_, old₂⟩
          · rfl
          · exact absurd c₂ (alone c₁ q₂ (List.mem_of_getElem? old₂))
          · exact absurd c₁ (alone c₂ q₁ (List.mem_of_getElem? old₁))
          · exact one r₁ r₂ q₁ q₂ old₁ old₂ c₁ c₂
      · have others : ∀ (r' : Nat) (q₁ : Decider), x.requests[r']? = some q₁ → r' ≠ r →
            Waiting s₀ a q₁ := by
          intro r' q₁ old ne
          rcases each q₁ (List.mem_of_getElem? old) with waiting | other
          · exact waiting
          · exact absurd (one r' r q₁ q old at_r other chosen) ne
        rcases chosen.step endpoint mine moves with ⟨keeps, chosen'⟩ | won
        · -- on the way to the commit
          refine .undecided keeps (fun q₁ h => ?_)
            (fun r₁ r₂ q₁ q₂ first second c₁ c₂ => ?_)
          · rcases List.mem_or_eq_of_mem_set h with old | rfl
            · exact each q₁ old
            · exact Or.inr chosen'
          · have here : ∀ (r' : Nat) (q₁ : Decider), (x.requests.set r q')[r']? = some q₁ →
                Chosen s₀ a e q₁ → r' = r := by
              intro r' q₁ now c
              rcases set_cases now with ⟨same, _⟩ | ⟨ne, old⟩
              · exact same
              · exact absurd c (others r' q₁ old ne).not_chosen
            rw [here r₁ q₁ first c₁, here r₂ q₂ second c₂]
        · -- the commit
          refine .decided now won (fun r' q₁ now ne => ?_)
          rcases set_cases now with ⟨same, _⟩ | ⟨_, old⟩
          · exact absurd same ne
          · exact others r' q₁ old ne
    | @decided w q₀ winner won others =>
      by_cases same : r = w
      · subst same
        cases winner.symm.trans at_r
        refine .decided now (won.step moves) (fun r' q₁ now ne => ?_)
        rcases set_cases now with ⟨same, _⟩ | ⟨_, old⟩
        · exact absurd same ne
        · exact others r' q₁ old ne
      · -- a loser finds the action decided
        obtain ⟨row, written, endpointId, status⟩ := won.written found
        obtain ⟨rfl, checked⟩ :=
          (others r q at_r same).step (e := e) written endpointId won.owners moves
        have waiting : Waiting s₀ a q' := by
          rcases checked with waiting | ⟨pending, _⟩
          · exact waiting
          · rw [status] at pending
            cases q₀ <;> cases pending
        refine .decided (w := w) (q := q₀) ?_ won (fun r' q₁ now ne => ?_)
        · exact (List.getElem?_set_ne same).trans winner
        · rcases set_cases now with ⟨rfl, rfl⟩ | ⟨_, old⟩
          · exact waiting
          · exact others r' q₁ old ne

theorem Phase.step (phase : Phase streamShards s₀ a e x)
    (found : s₀.db.action a.id = some a) (endpoint : s₀.db.endpoint e.id = some e)
    (mine : a.endpointId = e.id) (admitted : x.OneDecides l)
    (next : step streamShards a.id l x = some y) : Phase streamShards s₀ a e y := by
  cases l with
  | tick time =>
    simp only [Deciding.step] at next
    split at next
    · cases next
      cases phase with
      | undecided store each one => exact .undecided store each one
      | decided winner won others => exact .decided winner won others
    · cases next
  | approve tenantId =>
    cases next
    exact phase.arrive (.approveOwned tenantId)
  | reject tenantId =>
    cases next
    exact phase.arrive (.rejectOwned tenantId)
  | serve r => exact phase.serve found endpoint mine admitted next

/-- Where no two requests decide at once: one succeeds, every other owner is told that
the action is decided, and the effect is applied if and only if the action is
approved, and then exactly once. -/
theorem decided_once {clock : ℚ} (found : s₀.db.action a.id = some a)
    (pending : a.status = .pending) (endpoint : s₀.db.endpoint e.id = some e)
    (mine : a.endpointId = e.id) (distinct : (s₀.db.deliveries.map Delivery.id).Nodup)
    (run : Run (step streamShards a.id) OneDecides (start clock s₀) x) :
    (∀ (r r' : Nat) (q q' : Decider), x.requests[r]? = some q → x.requests[r']? = some q' →
        Succeeded q → Succeeded q' → r = r') ∧
      (∀ q ∈ x.requests, Answered s₀ a q) ∧
      (x.Quiet → ∃ row, x.store.db.action a.id = some row ∧
        (row.status = .approved → AppliedOnce a e s₀ x.store) ∧
        (row.status ≠ .approved → Unapplied s₀ x.store)) := by
  have phase : Phase streamShards s₀ a e x := run.invariant (Phase.start clock)
    (fun phase admitted next => phase.step found endpoint mine admitted next)
  cases phase with
  | undecided store each one =>
    have silent : ∀ q ∈ x.requests, Answered s₀ a q ∧ ¬ Succeeded q := by
      intro q listed
      rcases each q listed with waiting | chosen
      · exact waiting.answers
      · have unanswered := chosen.answers.1
        exact ⟨fun result h => (by rw [unanswered] at h; cases h),
          fun ⟨_, h⟩ => (by rw [unanswered] at h; cases h)⟩
    refine ⟨fun r r' q q' first _ success _ => ?_, fun q listed => (silent q listed).1,
      fun _ => ?_⟩
    · exact absurd success (silent q (List.mem_of_getElem? first)).2
    · refine ⟨a, store ▸ found, fun approved => ?_, fun _ => store ▸ rfl⟩
      rw [pending] at approved
      cases approved
  | @decided w q₀ winner won others =>
    have only : ∀ (r : Nat) (q : Decider), x.requests[r]? = some q → Succeeded q → r = w := by
      intro r q at_r success
      by_contra other
      exact (others r q at_r other).answers.2 success
    refine ⟨fun r r' q q' first second success success' => ?_, fun q listed => ?_,
      fun quiet => ?_⟩
    · rw [only r q first success, only r' q' second success']
    · obtain ⟨r, at_r⟩ := List.getElem?_of_mem listed
      by_cases same : r = w
      · subst same
        cases winner.symm.trans at_r
        exact won.answers
      · exact (others r q at_r same).answers.1
    · obtain ⟨row, written, _, status⟩ := won.written found
      have applied := won.applied (quiet q₀ (List.mem_of_getElem? winner)) endpoint distinct
      exact ⟨row, written, status ▸ applied.1, status ▸ applied.2⟩

/-- The rejection arrives first and is refused, the approval replays. -/
def refusedRejection : List Label :=
  [.reject 2, .approve 2, .serve 0, .serve 1, .serve 1, .serve 1, .serve 1, .serve 1, .serve 0,
    .serve 1, .serve 1, .serve 1]

theorem decided_once_replay : ∃ x : Deciding,
    Run (step 8 5) OneDecides (start 0 (deadLetter .unordered)) x ∧
      x.requests.map (fun q => decide (Succeeded q)) = [false, true] ∧
      ReplayedOnce { id := 1, tenantId := 2, ordering := .unordered }
        (deadLetter .unordered) x.store := by
  have evaluates : (exec (step 8 5) (fun x l => decide (x.OneDecides l)) refusedRejection
      (start 0 (deadLetter .unordered))).elim false (fun x => decide
        (x.requests.map (fun q => decide (Succeeded q)) = [false, true] ∧ x.Quiet ∧
          (x.store.db.action 5).map AgentAction.status = some .approved)) = true := by
    decide +kernel
  obtain ⟨x, executed, passes⟩ := reached evaluates
  obtain ⟨answers, quiet, approved⟩ := of_decide_eq_true passes
  have run := run_of_exec (fun _ _ => of_decide_eq_true) executed
  obtain ⟨_, _, outcome⟩ := decided_once (a := replayAction)
    (e := { id := 1, tenantId := 2, ordering := .unordered }) (by decide +kernel) rfl
    (by decide +kernel) rfl (by decide +kernel) run
  obtain ⟨row, written, applied, _⟩ := outcome quiet
  have found : x.store.db.action 5 = some row := written
  rw [found] at approved
  exact ⟨x, run, answers, applied (Option.some.inj approved)⟩

/-- Two approvals and a rejection read the action before any of them commits. -/
def threeDecide : List Label :=
  [.approve 2, .approve 2, .reject 2] ++
    [.serve 0, .serve 0, .serve 1, .serve 1, .serve 2, .serve 2] ++
    [.serve 0, .serve 0, .serve 1, .serve 1] ++
    [.serve 0, .serve 0, .serve 0, .serve 0, .serve 1, .serve 1, .serve 1, .serve 1, .serve 2]

/-- All three succeed: the delivery is enqueued twice, and the action is rejected. -/
theorem decided_thrice : ∃ x : Deciding,
    Run (step 8 5) (fun _ _ => True) (start 0 (deadLetter .unordered)) x ∧ x.Quiet ∧
      x.requests.map (fun q => decide (Succeeded q)) = [true, true, true] ∧
      (x.store.db.action 5).map AgentAction.status = some .rejected ∧
      x.store.log.count (.xadd .approve ⟨11, 10, 1⟩) = 2 := by
  have evaluates : (exec (step 8 5) (fun _ _ => true) threeDecide
      (start 0 (deadLetter .unordered))).elim false (fun x => decide
        (x.Quiet ∧ x.requests.map (fun q => decide (Succeeded q)) = [true, true, true] ∧
          (x.store.db.action 5).map AgentAction.status = some .rejected ∧
          x.store.log.count (.xadd .approve ⟨11, 10, 1⟩) = 2)) = true := by
    decide +kernel
  obtain ⟨x, executed, passes⟩ := reached evaluates
  exact ⟨x, run_of_exec (fun _ _ _ => trivial) executed, of_decide_eq_true passes⟩

end Deciding

end Relay.Api
