import Relay.Delivery.Attempt

/-!
# Which replies are recorded

What the receiver sends reaches three places that can raise between the two
commits of an attempt: the text of the response, the delay until the retry, and
the snippet that goes into a TEXT column.
-/

namespace Relay.Worker

open Retry RetryQueue Sender

/-- After an attempt: one attempt row more, and a row that is settled or scheduled. -/
structure Recorded (env : Env) (t : Trial) (v : Locals) (before after : Store) : Prop where
  attempt : ∃ r, t.result = some r ∧
    after.db.attempts = before.db.attempts ++ [attemptRow (delivering v.delivery) r.scalars]
  row : ∃ row, after.db.delivery v.delivery.id = some row ∧
    (row.status = .delivered ∨ row.status = .dead ∨
      (row.status = .failed ∧ after.queues.retries.Mem (v.member env)))

/-- `process_delivery` does not raise, and the attempt is recorded. -/
def Records (env : Env) (t : Trial) (v : Locals) (slot : Uuid) (s : Store) : Prop :=
  ∃ after pc, processDelivery env t v slot s = (after, some pc) ∧ pc.processes = false ∧
    Recorded env t v s after

/-- A 429 with attempts left whose Retry-After is read as nan. -/
def DelaysByNan (env : Env) (attemptNumber : Nat) : Reply → Prop
  | .raised _ => False
  | .answered response =>
    response.statusCode = 429 ∧ attemptNumber < env.settings.maxAttempts ∧
      parseRetryAfter env.float response.retryAfter = some .nan

/-- `timedelta` raises on nan, and no other delay is computed that it raises on. -/
theorem resolve_eq_none {env : Env} {clock jitter : ℚ} {v : Locals} {r : AttemptResult PyStr} :
    resolve env clock v r jitter = none ↔
      r.succeeded = false ∧ r.httpStatus = some 429 ∧
        v.delivery.attemptCount < env.settings.maxAttempts ∧
        parseRetryAfter env.float r.retryAfter = some .nan := by
  constructor
  · intro raises
    unfold resolve at raises
    split at raises
    · cases raises
    · rename_i failed
      split at raises
      · cases raises
      · cases raises
      · rename_i delay notNumber delays
        rcases nextDelaySeconds_some delays with ⟨q, number⟩ | ⟨_, left, limited, parsed⟩
        · exact absurd number (notNumber q)
        · exact ⟨Bool.eq_false_iff.mpr failed, limited, left, parsed⟩
  · rintro ⟨failed, limited, left, parsed⟩
    unfold resolve
    rw [if_neg (by rw [failed]; exact Bool.false_ne_true), limited,
      nextDelaySeconds_429 left parsed]

theorem resolve_reply_eq_none {env : Env} {clock jitter : ℚ} {v : Locals} {t : Trial}
    {r : AttemptResult PyStr} (returned : t.result = some r) :
    resolve env clock v r jitter = none ↔ DelaysByNan env v.delivery.attemptCount t.reply := by
  rw [resolve_eq_none]
  obtain ⟨text, decoded, rfl⟩ := result_some.mp returned
  cases t.reply with
  | raised exc => simp [Reply.status, DelaysByNan]
  | answered response =>
    constructor
    · rintro ⟨_, limited, rest⟩
      exact ⟨Option.some.inj limited, rest⟩
    · rintro ⟨limited, rest⟩
      refine ⟨?_, congrArg some limited, rest⟩
      simp [Reply.errorClass, AttemptResult.succeeded, classifyStatus, limited]

variable {env : Env} {t : Trial} {v : Locals} {slot : Uuid} {s : Store}

/-- What the second commit and the retry after it leave behind. -/
theorem recorded_recorded {clock : ℚ} {outcome row : Delivery} {delay : Option ℚ}
    {r : AttemptResult PyStr} (returned : t.result = some r)
    (found : s.db.delivery v.delivery.id = some row)
    (resolved : Resolved clock (delivering v.delivery) outcome delay) :
    Recorded env t v s (recorded env t v slot s r.scalars outcome delay).1 := by
  obtain ⟨row', found', status⟩ : ∃ row', (attempted s v.delivery outcome r.scalars
      (t.clock 3)).db.delivery v.delivery.id = some row' ∧ row'.status = outcome.status :=
    resolved.status_attempted found
  cases resolved with
  | delivered => exact ⟨⟨r, returned, rfl⟩, row', found', Or.inl status⟩
  | dead => exact ⟨⟨r, returned, rfl⟩, row', found', Or.inr (Or.inl status)⟩
  | failed delay =>
    refine ⟨⟨r, returned, rfl⟩, row', found', Or.inr (Or.inr ⟨status, ?_⟩)⟩
    exact ZSet.mem_zadd.mpr (Or.inr rfl)

variable (env t v slot) in
theorem recorded_returned (s : Store) (r : AttemptResult String) (outcome : Delivery)
    (delay : Option ℚ) : ∃ pc, (recorded env t v slot s r outcome delay).2 = some pc ∧
      pc.processes = false := by
  cases delay <;> exact ⟨_, rfl, rfl⟩

/-- An attempt is recorded exactly when the text of the response decodes, its snippet
holds no lone surrogate and no U+0000, and the reply is not a 429, with attempts
left, whose Retry-After is read as nan. -/
theorem response_recorded (drawn : t.Drawn) (row : (s.db.delivery v.delivery.id).isSome = true)
    (undelivered : v.delivery.status ≠ .delivered)
    (endpoint : (s.db.endpoint v.delivery.endpointId).isSome = true)
    (event : (s.db.event v.delivery.eventId).isSome = true) :
    Records env t v slot s ↔ Decodes t.reply ∧ TextStorable t.reply ∧
      ¬ DelaysByNan env (v.delivery.attemptCount + 1) t.reply := by
  have runs : processDelivery env t v slot s = _ :=
    processDelivery_eq drawn row undelivered endpoint event
  obtain ⟨d, found⟩ := Option.isSome_iff_exists.mp row
  have raised : (processDelivery env t v slot s).2 = none → ¬ Records env t v slot s := by
    rintro raises ⟨after, pc, returns, _⟩
    rw [returns] at raises
    cases raises
  cases returned : t.result with
  | none =>
    rw [returned] at runs
    refine ⟨fun records => absurd records (raised (by rw [runs])), fun held => ?_⟩
    have decodes := result_isSome.mpr held.1
    rw [returned] at decodes
    cases decodes
  | some r =>
    have storing : r.Storable ↔ TextStorable t.reply := storable_result returned
    have raising : resolve env (t.clock 2) { v with delivery := delivering v.delivery } r
        t.jitter = none ↔ DelaysByNan env (v.delivery.attemptCount + 1) t.reply :=
      resolve_reply_eq_none returned
    have decoded : Decodes t.reply := result_isSome.mp (by rw [returned]; rfl)
    rw [← storing, ← raising]
    rw [returned] at runs
    simp only at runs
    cases resolved : resolve env (t.clock 2) { v with delivery := delivering v.delivery } r
        t.jitter with
    | none =>
      rw [resolved] at runs
      exact ⟨fun records => absurd records (raised (by rw [runs])),
        fun held => absurd rfl held.2.2⟩
    | some answer =>
      obtain ⟨outcome, delay⟩ := answer
      rw [resolved] at runs
      simp only at runs
      by_cases stores : r.Storable
      · rw [if_pos stores] at runs
        refine ⟨fun _ => ⟨decoded, stores, Option.some_ne_none _⟩, fun _ => ?_⟩
        obtain ⟨pc, returns, outside⟩ :=
          recorded_returned env t v slot s r.scalars outcome delay
        exact ⟨_, pc, runs.trans (Prod.ext rfl returns), outside,
          recorded_recorded returned found (resolve_resolved resolved)⟩
      · rw [if_neg stores] at runs
        exact ⟨fun records => absurd records (raised (by rw [runs])),
          fun held => absurd held.2.1 stores⟩

/-- An answer of 503 is recorded. -/
theorem response_recorded_503 :
    Records readsNan { reply := .answered ⟨503, some (.ofText "busy"), some "nan"⟩ }
      firstAttempt 0
      (storeOf sampleDelivery sampleEndpoint) :=
  (response_recorded (by decide +kernel) rfl (by decide) rfl rfl).mpr
    ⟨by decide, by decide +kernel, fun limited => absurd limited.1 (by decide)⟩

/-- Four replies with which `process_delivery` raises: a body that no text codec decodes,
one with a lone surrogate, one with U+0000, and a Retry-After of nan. -/
def lost : List Reply :=
  [.answered ⟨200, none, none⟩, .answered ⟨200, some [.surrogate 0], none⟩,
    .answered ⟨200, some [.scalar (Char.ofNat 0)], none⟩,
      .answered ⟨429, some [], some "nan"⟩]

theorem response_lost :
    (storeOf sampleDelivery sampleEndpoint).db.delivery 1 = some firstAttempt.delivery ∧
      ∀ reply ∈ lost, ¬ Records readsNan { reply := reply } firstAttempt 0
        (storeOf sampleDelivery sampleEndpoint) := by
  have raises : ∀ reply ∈ lost, (processDelivery readsNan { reply := reply } firstAttempt 0
      (storeOf sampleDelivery sampleEndpoint)).2.isNone = true := by
    decide +kernel
  refine ⟨rfl, ?_⟩
  rintro reply listed ⟨after, pc, returns, _⟩
  have none := raises reply listed
  rw [returns] at none
  cases none

end Relay.Worker
