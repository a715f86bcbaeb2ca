import Relay.Delivery.Sender
import Relay.Delivery.Session

/-!
# One attempt

`process_delivery` with no other process in between: its awaits are those of the
worker, from the reload of the row to the return.
-/

namespace Relay.Worker

open Retry Sender

/-- What the surroundings contribute to an attempt: the receiver's reply, how long
it took, the jitter, and the times of the awaits, counted from the last one. -/
structure Trial where
  reply : Reply
  latencyMs : Nat := 0
  jitter : ℚ := 1
  clock : Nat → ℚ := fun _ => 0

/-- What `send_delivery` returns, `none` where it raises. -/
def Trial.result (t : Trial) : Option (AttemptResult PyStr) := sendDelivery t.latencyMs t.reply

/-- The jitter is one that `uniform(JITTER_MIN, JITTER_MAX)` can draw. -/
def Trial.Drawn (t : Trial) : Prop := jitterMin ≤ t.jitter ∧ t.jitter ≤ jitterMax

instance (t : Trial) : Decidable t.Drawn := inferInstanceAs (Decidable (_ ∧ _))

/-- The result with a snippet that UTF-8 encodes. -/
def AttemptResult.scalars (r : AttemptResult PyStr) : AttemptResult String :=
  ⟨r.latencyMs, r.httpStatus, r.errorClass, r.responseSnippet.map PyStr.scalars, r.retryAfter⟩

def Trial.choice (t : Trial) : Choice :=
  match t.result with
  | none => { jitter := t.jitter }
  | some r => { result := r.scalars, jitter := t.jitter }

/-- The awaits that raise whatever is stored: `send_delivery`, and the commit of a snippet
that UTF-8 does not encode. -/
def Trial.raises (t : Trial) : Pc → Bool
  | .receive .. => t.result.isNone
  | .commitOutcome .. =>
    t.result.any (fun r => r.responseSnippet.any (fun text => !decide text.Encodable))
  | _ => false

/-- The locations inside `process_delivery`. -/
def Pc.processes : Pc → Bool
  | .reloadDelivery .. | .reloadEndpoint .. | .loadEvent .. | .commitDelivering .. | .send ..
  | .receive .. | .commitOutcome .. | .scheduleRetry .. => true
  | _ => false

/-- At most `n` awaits, while in `process_delivery`: the store that they leave, and the
location, or `none` when the last one raised. -/
def awaits (env : Env) (t : Trial) (id : Uuid) : Nat → Store × Pc → Store × Option Pc
  | 0, x => (x.1, some x.2)
  | n + 1, x =>
    if x.2.processes then
      if t.raises x.2 then (x.1, none)
      else
        match x.2.step env (t.clock n) t.choice 0 0 id x.1 with
        | none => (x.1, none)
        | some y => awaits env t id n y
    else (x.1, some x.2)

/-- `process_delivery` on the row `v.delivery`: eight awaits, the answer is
handled at the time of the third from the end. -/
def processDelivery (env : Env) (t : Trial) (v : Locals) (slot : Uuid) (s : Store) :
    Store × Option Pc :=
  awaits env t v.delivery.id 8 (s, .reloadDelivery v slot)

/-- The row that is inserted for an attempt; `d` is the row of the first commit. -/
def attemptRow (d : Delivery) (r : AttemptResult String) : DeliveryAttempt where
  deliveryId := d.id
  attemptNumber := d.attemptCount
  latencyMs := r.latencyMs
  httpStatus := r.httpStatus
  errorClass := r.errorClass
  responseSnippet := r.responseSnippet

/-- A TEXT column takes the snippet. -/
def AttemptResult.Storable (r : AttemptResult PyStr) : Prop :=
  ∀ text ∈ r.responseSnippet, ∀ c ∈ text, c.Storable

instance (r : AttemptResult PyStr) : Decidable r.Storable :=
  inferInstanceAs (Decidable (∀ text ∈ r.responseSnippet, ∀ c ∈ text, c.Storable))

/-- The store after the first commit of an attempt on `d`, when the request is out. -/
def begun (s : Store) (d : Delivery) (time : ℚ) : Store :=
  (s.commitDelivery .delivering d (delivering d)).logAttempt d.id time

/-- The store after both commits of an attempt on `d`. -/
def attempted (s : Store) (d outcome : Delivery) (r : AttemptResult String) (time : ℚ) : Store :=
  ((begun s d time).addAttempt (attemptRow (delivering d) r)).commitDelivery .outcome
    (delivering d) outcome

/-- The second commit, and the retry that follows it. -/
def recorded (env : Env) (t : Trial) (v : Locals) (slot : Uuid) (s : Store)
    (r : AttemptResult String) (outcome : Delivery) (delay : Option ℚ) : Store × Option Pc :=
  let s' := attempted s v.delivery outcome r (t.clock 3)
  match delay with
  | some seconds =>
    (s'.scheduleRetry (Locals.member env { v with delivery := outcome }) (t.clock 1 + seconds),
      some (.refresh { v with delivery := outcome } slot))
  | none => (s', some (.refresh { v with delivery := outcome } slot))

/-- `response.text` does not raise. -/
def Decodes (reply : Reply) : Prop := reply.text.isSome = true

instance (reply : Reply) : Decidable (Decodes reply) := inferInstanceAs (Decidable (_ = _))

/-- The snippet holds no lone surrogate and no U+0000. -/
def TextStorable (reply : Reply) : Prop :=
  ∀ text ∈ reply.text, ∀ c ∈ text.take responseSnippetLimit, c.Storable

instance (reply : Reply) : Decidable (TextStorable reply) :=
  inferInstanceAs (Decidable (∀ text ∈ reply.text, ∀ c ∈ text.take _, c.Storable))

section

variable {env : Env} {t : Trial} {v : Locals} {slot : Uuid} {s : Store} {pc : Pc}
  {r : AttemptResult PyStr}

theorem awaits_step {id : Uuid} {n : Nat} {y : Store × Pc} (inside : pc.processes = true)
    (calm : t.raises pc = false) (next : pc.step env (t.clock n) t.choice 0 0 id s = some y) :
    awaits env t id (n + 1) (s, pc) = awaits env t id n y := by
  rw [awaits, if_pos inside, if_neg (Bool.eq_false_iff.mp calm), next]

theorem awaits_raises {id : Uuid} {n : Nat} (inside : pc.processes = true)
    (stuck : t.raises pc = true ∨ pc.step env (t.clock n) t.choice 0 0 id s = none) :
    awaits env t id (n + 1) (s, pc) = (s, none) := by
  rw [awaits, if_pos inside]
  split
  · rfl
  · rename_i calm
    rw [stuck.resolve_left calm]

theorem awaits_returned {id : Uuid} {n : Nat} (outside : pc.processes = false) :
    awaits env t id n (s, pc) = (s, some pc) := by
  cases n with
  | zero => rfl
  | succ n => rw [awaits, if_neg (by rw [outside]; exact Bool.false_ne_true)]

/-- A commit flushes onto the row that is there by now. -/
theorem delivery_commit (stage : Stage) (loaded current : Delivery) :
    (s.commitDelivery stage loaded current).db.delivery loaded.id =
      (s.db.delivery loaded.id).map (loaded.flush current) := by
  have commits : (s.commitDelivery stage loaded current).db.delivery loaded.id =
      (s.db.updateDelivery loaded current).delivery loaded.id := rfl
  rw [commits, Db.delivery_updateDelivery, if_pos rfl]

/-- Up to the reply: the row exists, its endpoint and its event too. -/
theorem processDelivery_sends (row : (s.db.delivery v.delivery.id).isSome = true)
    (undelivered : v.delivery.status ≠ .delivered)
    (endpoint : (s.db.endpoint v.delivery.endpointId).isSome = true)
    (event : (s.db.event v.delivery.eventId).isSome = true) :
    processDelivery env t v slot s =
      awaits env t v.delivery.id 3 (begun s v.delivery (t.clock 3),
        .receive { v with delivery := delivering v.delivery } slot) := by
  obtain ⟨d, found⟩ := Option.isSome_iff_exists.mp row
  obtain ⟨e, foundEndpoint⟩ := Option.isSome_iff_exists.mp endpoint
  obtain ⟨ev, foundEvent⟩ := Option.isSome_iff_exists.mp event
  unfold processDelivery
  rw [awaits_step rfl rfl (y := (s, .reloadEndpoint v slot))
    (by simp only [Pc.step, found, if_neg undelivered])]
  rw [awaits_step rfl rfl (y := (s, .loadEvent v slot))
    (by simp only [Pc.step, foundEndpoint])]
  rw [awaits_step rfl rfl (y := (s, .commitDelivering v slot))
    (by simp only [Pc.step, foundEvent])]
  rw [awaits_step rfl rfl (y := (s.commitDelivery .delivering v.delivery (delivering v.delivery),
    .send { v with delivery := delivering v.delivery } slot))
    (by simp only [Pc.step, found, delivering])]
  exact awaits_step rfl rfl rfl

theorem result_some : t.result = some r ↔ ∃ text, t.reply.text = some text ∧
    r = ⟨t.latencyMs, t.reply.status, t.reply.errorClass, some (snippet text),
      t.reply.retryAfter⟩ := by
  unfold Trial.result
  rw [sendDelivery_eq, Option.map_eq_some_iff]
  exact exists_congr (fun text => and_congr_right (fun _ => eq_comm))

theorem result_isSome : t.result.isSome = true ↔ Decodes t.reply := by
  unfold Trial.result Decodes
  rw [sendDelivery_eq, Option.isSome_map]

theorem storable_result (returned : t.result = some r) : r.Storable ↔ TextStorable t.reply := by
  obtain ⟨text, decoded, rfl⟩ := result_some.mp returned
  unfold AttemptResult.Storable TextStorable
  rw [decoded]
  simp only [Option.mem_some_iff, forall_eq', snippet]

/-- A snippet is looked at twice, by the driver and by Postgres. -/
theorem storable_scalars {attempt : DeliveryAttempt} {outcome : Delivery} {delay : Option ℚ}
    (d : Delivery) (returned : t.result = some r) :
    r.Storable ↔ t.raises (.commitOutcome v slot attempt outcome delay) = false ∧
      storable (attemptRow d r.scalars) = true := by
  unfold AttemptResult.Storable Trial.raises storable
  rw [returned]
  cases snippet : r.responseSnippet with
  | none => simp [attemptRow, AttemptResult.scalars, snippet]
  | some text =>
    simp only [Option.mem_some_iff, forall_eq', Option.any_some, snippet, Bool.not_eq_false',
      decide_eq_true_eq, attemptRow, AttemptResult.scalars, Option.map_some, PyStr.scalars,
      String.toList_ofList]
    rw [Bool.not_eq_true', List.contains_eq_mem, decide_eq_false_iff_not]
    constructor
    · intro stores
      refine ⟨fun c listed => (stores c listed).1, fun zero => ?_⟩
      obtain ⟨c, listed, char⟩ := List.mem_filterMap.mp zero
      cases c with
      | scalar c =>
        cases char
        exact (stores _ listed).2 rfl
      | surrogate offset => cases char
    · rintro ⟨encodes, noZero⟩ c listed
      refine ⟨encodes c listed, fun zero => noZero ?_⟩
      exact List.mem_filterMap.mpr ⟨c, listed, by rw [zero]; rfl⟩

/-- From the second commit on. -/
theorem awaits_commitOutcome {outcome : Delivery} {delay : Option ℚ}
    (row : (s.db.delivery v.delivery.id).isSome = true) (returned : t.result = some r) :
    awaits env t v.delivery.id 2 (begun s v.delivery (t.clock 3),
        .commitOutcome { v with delivery := delivering v.delivery } slot
          (attemptRow (delivering v.delivery) r.scalars) outcome delay) =
      if r.Storable then recorded env t v slot s r.scalars outcome delay
      else (begun s v.delivery (t.clock 3), none) := by
  obtain ⟨d, found⟩ := Option.isSome_iff_exists.mp row
  have present : (begun s v.delivery (t.clock 3)).db.delivery (delivering v.delivery).id =
      some (v.delivery.flush (delivering v.delivery) d) := by
    have committed := delivery_commit (s := s) .delivering v.delivery (delivering v.delivery)
    rw [found] at committed
    exact committed
  have taken : r.Storable ↔ t.raises (.commitOutcome { v with delivery := delivering v.delivery }
      slot (attemptRow (delivering v.delivery) r.scalars) outcome delay) = false ∧ _ :=
    storable_scalars (delivering v.delivery) returned
  by_cases stores : r.Storable
  · rw [if_pos stores]
    obtain ⟨calm, stored⟩ := taken.mp stores
    cases delay with
    | none =>
      rw [awaits_step rfl calm (y := (attempted s v.delivery outcome r.scalars (t.clock 3),
        .refresh { v with delivery := outcome } slot))
        (by simp only [Pc.step, present, if_pos stored, attempted])]
      exact awaits_returned rfl
    | some seconds =>
      rw [awaits_step rfl calm (y := (attempted s v.delivery outcome r.scalars (t.clock 3),
        .scheduleRetry { v with delivery := outcome } slot (t.clock 1 + seconds)))
        (by simp only [Pc.step, present, if_pos stored, attempted])]
      exact (awaits_step rfl rfl rfl).trans rfl
  · rw [if_neg stores]
    refine awaits_raises rfl (or_iff_not_imp_left.mpr (fun calm => ?_))
    have refused : ¬ storable (attemptRow (delivering v.delivery) r.scalars) = true :=
      fun stored => stores (taken.mpr ⟨Bool.eq_false_iff.mpr calm, stored⟩)
    simp only [Pc.step, present, if_neg refused]

/-- An attempt on a row that exists, with its endpoint and event: it raises or
both commits are made. -/
theorem processDelivery_eq (drawn : t.Drawn) (row : (s.db.delivery v.delivery.id).isSome = true)
    (undelivered : v.delivery.status ≠ .delivered)
    (endpoint : (s.db.endpoint v.delivery.endpointId).isSome = true)
    (event : (s.db.event v.delivery.eventId).isSome = true) :
    processDelivery env t v slot s =
      match t.result with
      | none => (begun s v.delivery (t.clock 3), none)
      | some r =>
        match resolve env (t.clock 2) { v with delivery := delivering v.delivery } r t.jitter with
        | none => (begun s v.delivery (t.clock 3), none)
        | some (outcome, delay) =>
          if r.Storable then recorded env t v slot s r.scalars outcome delay
          else (begun s v.delivery (t.clock 3), none) := by
  rw [processDelivery_sends row undelivered endpoint event]
  cases returned : t.result with
  | none => exact awaits_raises rfl (Or.inl (by simp [Trial.raises, returned]))
  | some r =>
    have calm : ∀ v slot, t.raises (.receive v slot) = false :=
      fun v slot => by simp [Trial.raises, returned]
    have choice : t.choice = { result := r.scalars, jitter := t.jitter } := by
      simp only [Trial.choice, returned]
    have admitted : jitterMin ≤ t.choice.jitter ∧ t.choice.jitter ≤ jitterMax := by
      rw [choice]
      exact drawn
    have same : resolve env (t.clock 2) { v with delivery := delivering v.delivery }
        t.choice.result t.choice.jitter =
          resolve env (t.clock 2) { v with delivery := delivering v.delivery } r t.jitter := by
      rw [choice]
      rfl
    simp only
    cases resolved : resolve env (t.clock 2) { v with delivery := delivering v.delivery } r
        t.jitter with
    | none =>
      rw [resolved] at same
      exact awaits_raises rfl (Or.inr (by simp only [Pc.step, if_pos admitted, same]))
    | some answer =>
      obtain ⟨outcome, delay⟩ := answer
      rw [resolved] at same
      simp only
      rw [← awaits_commitOutcome row returned]
      refine awaits_step rfl (calm _ _) ?_
      simp only [Pc.step, if_pos admitted, same]
      rw [choice]
      rfl

theorem delivery_attempted (s : Store) (d outcome : Delivery) (r : AttemptResult String)
    (time : ℚ) :
    (attempted s d outcome r time).db.delivery d.id =
      (s.db.delivery d.id).map (fun row =>
        (delivering d).flush outcome (d.flush (delivering d) row)) := by
  have first := delivery_commit (s := s) .delivering d (delivering d)
  have second := delivery_commit (s := (begun s d time).addAttempt
    (attemptRow (delivering d) r)) .outcome (delivering d) outcome
  calc (attempted s d outcome r time).db.delivery d.id
      = ((s.commitDelivery .delivering d (delivering d)).db.delivery d.id).map
          ((delivering d).flush outcome) := second
    _ = _ := by rw [first, Option.map_map]; rfl

/-- An outcome of an attempt changes neither the keys nor the count. -/
theorem Resolved.keeps {clock : ℚ} {d outcome : Delivery} {delay : Option ℚ}
    (resolved : Resolved clock d outcome delay) :
    outcome.id = d.id ∧ outcome.eventId = d.eventId ∧ outcome.endpointId = d.endpointId ∧
      outcome.attemptCount = d.attemptCount := by
  cases resolved <;> exact ⟨rfl, rfl, rfl, rfl⟩

/-- Whatever the row was, its status is that of the outcome. -/
theorem Resolved.status_attempted {clock time : ℚ} {d outcome row : Delivery} {delay : Option ℚ}
    {r : AttemptResult String} (resolved : Resolved clock (delivering d) outcome delay)
    (found : s.db.delivery d.id = some row) :
    ∃ row', (attempted s d outcome r time).db.delivery d.id = some row' ∧
      row'.status = outcome.status := by
  refine ⟨_, by rw [delivery_attempted, found]; rfl, ?_⟩
  rw [Delivery.flush_status]
  cases resolved with
  | delivered => rfl
  | dead => rfl
  | failed delay => rfl

/-- A row that nobody else changes ends as the outcome. -/
theorem Resolved.delivery_attempted {clock time : ℚ} {d outcome : Delivery} {delay : Option ℚ}
    {r : AttemptResult String} (resolved : Resolved clock (delivering d) outcome delay)
    (found : s.db.delivery d.id = some d) :
    (attempted s d outcome r time).db.delivery d.id = some outcome := by
  obtain ⟨id, event, endpoint, _⟩ := resolved.keeps
  have first : d.flush (delivering d) d = delivering d := Delivery.flush_loaded rfl rfl rfl
  have second : (delivering d).flush outcome (delivering d) = outcome :=
    Delivery.flush_loaded id event endpoint
  rw [Worker.delivery_attempted, found, Option.map_some, first, second]

end

/-! A store with one delivery -/

/-- One delivery of the endpoint and the event with id 1, and nothing else. -/
def storeOf (d : Delivery) (e : Endpoint) : Store where
  db :=
    { endpoints := [e]
      events := [⟨d.eventId, e.tenantId, "order.created", "null", none⟩]
      deliveries := [d] }
  queues := ⟨ZSet.empty, fun _ => StreamLog.empty⟩
  ordered := fun _ => []
  locks := fun _ => none
  breakers := fun _ => {}
  buckets := fun _ => none
  inflight := fun _ => none
  published := []
  log := []
  issued := []

/-- The endpoint's tenant, so that the gates find it. -/
def withTenant (s : Store) : Store := { s with db := { s.db with tenants := [{ id := 1 }] } }

def sampleEndpoint : Endpoint := { id := 1, tenantId := 1 }

def sampleDelivery : Delivery := { id := 1, eventId := 1, endpointId := 1 }

/-- The first attempt of a delivery. -/
def firstAttempt : Locals := { now := 0, delivery := sampleDelivery, endpoint := sampleEndpoint }

/-- `float` on the text nan; no other header is read as a number here. -/
def readsNan : Env := { float := fun text => if text = "nan" then some .nan else none }

/-- `deliver_with_gates` has returned True. -/
def closesAcked (x : Store × Pc) : Bool :=
  match x.2 with
  | .close true => true
  | _ => false

theorem closesAcked_sound {x : Store × Pc} (closes : closesAcked x = true) :
    x = (x.1, .close true) := by
  obtain ⟨s, pc⟩ := x
  cases pc with
  | close acks =>
    cases acks with
    | true => rfl
    | false => cases closes
  | _ => cases closes

end Relay.Worker
