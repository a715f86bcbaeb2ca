import Relay.Delivery.Attempt
import Mathlib.Tactic.IntervalCases

/-!
# The attempt budget of retryable failures

Two limits end the retries of a delivery: the configured maximum, and the keys
of the backoff table, which stop at 7. A Retry-After of a 429 is taken before
the table is asked. The last attempt leaves a dead row if its commit succeeds.
-/

namespace Relay.Worker

open Retry Sender

/-- A result that a later attempt may not meet: a transport error, 5xx, 408 or 429. -/
def Retryable : Reply → Prop
  | .raised _ => True
  | .answered response => response.text.isSome = true ∧
    (500 ≤ response.statusCode ∨ response.statusCode = 408 ∨ response.statusCode = 429)

/-- A 429 with a Retry-After that `parse_retry_after` accepts. -/
def AsksToWait (env : Env) : Reply → Prop
  | .raised _ => False
  | .answered response =>
    response.statusCode = 429 ∧ (parseRetryAfter env.float response.retryAfter).isSome = true

/-- What `next_delay_seconds` returns after attempt `n`, the `n`-th of the trials. -/
def delayAfter (env : Env) (trials : Nat → Trial) (n : Nat) : Option PyFloat :=
  match (trials n).result with
  | none => none
  | some r => nextDelaySeconds env.float n r.httpStatus r.retryAfter env.settings.maxAttempts
      (trials n).jitter

/-- The row of `v.delivery` after `n` attempts in order. An attempt that raises
leaves what its first commit wrote. -/
def rowAfter (env : Env) (trials : Nat → Trial) (v : Locals) : Nat → Delivery
  | 0 => v.delivery
  | n + 1 =>
    let d := rowAfter env trials v n
    if d.status.Settled then d
    else
      match (trials (n + 1)).result with
      | none => delivering d
      | some r =>
        match resolve env ((trials (n + 1)).clock 2) { v with delivery := delivering d } r
            (trials (n + 1)).jitter with
        | none => delivering d
        | some (outcome, _) => if r.Storable then outcome else delivering d

/-- A delay after every attempt before the last one that is configured, none after
that one, and the delivery is dead from there on and not before. -/
structure UsesBudget (env : Env) (trials : Nat → Trial) (v : Locals) : Prop where
  retried : ∀ n, 1 ≤ n → n < env.settings.maxAttempts →
    (delayAfter env trials n).isSome = true
  last : delayAfter env trials env.settings.maxAttempts = none
  dead : ∀ n, (rowAfter env trials v n).status = .dead ↔ env.settings.maxAttempts ≤ n

variable {env : Env} {trials : Nat → Trial} {v : Locals} {n : Nat}

theorem Retryable.decodes {reply : Reply} (retryable : Retryable reply) : Decodes reply := by
  cases reply with
  | raised exc => rfl
  | answered response => exact retryable.1

theorem Retryable.fails {reply : Reply} (retryable : Retryable reply) :
    reply.errorClass ≠ none := by
  intro succeeds
  obtain ⟨response, rfl, low, high⟩ := (errorClass_eq_none reply).mp succeeds
  obtain ⟨_, server | timeout | limited⟩ := retryable
  · omega
  · omega
  · omega

theorem Retryable.maxAttempts {reply : Reply} (retryable : Retryable reply)
    (configuredMax : Nat) : maxAttemptsFor reply.status configuredMax = configuredMax := by
  cases reply with
  | raised exc => rfl
  | answered response =>
    have retries : isTerminalStatus (some response.statusCode) = false := by
      refine decide_eq_false (fun terminal => ?_)
      obtain ⟨_, below, noTimeout, noLimit⟩ := terminal
      obtain ⟨_, server | timeout | limited⟩ := retryable
      · omega
      · exact noTimeout timeout
      · exact noLimit limited
    simp only [Reply.status, maxAttemptsFor, retries, Bool.false_eq_true, if_false]

/-- A retryable attempt returns a result, and asks for the delay with its status and header. -/
theorem Retryable.returns {t : Trial} (retryable : Retryable t.reply) :
    ∃ r, t.result = some r ∧ r.succeeded = false ∧ r.httpStatus = t.reply.status ∧
      r.retryAfter = t.reply.retryAfter := by
  obtain ⟨r, returned⟩ := Option.isSome_iff_exists.mp (result_isSome.mpr retryable.decodes)
  obtain ⟨text, _, rfl⟩ := result_some.mp returned
  refine ⟨_, returned, ?_, rfl, rfl⟩
  exact Bool.eq_false_iff.mpr (fun none => retryable.fails (Option.isNone_iff_eq_none.mp none))

/-- The keys of the table. -/
theorem backoffSchedule_isSome : (backoffSchedule n).isSome = true ↔ 1 ≤ n ∧ n ≤ 7 := by
  constructor
  · intro listed
    unfold backoffSchedule at listed
    split at listed
    all_goals first | omega | cases listed
  · rintro ⟨low, high⟩
    interval_cases n <;> rfl

/-- A delay is found below the maximum, in the header of a 429 or in the table. -/
theorem delayAfter_isSome (retryable : Retryable (trials n).reply) :
    (delayAfter env trials n).isSome = true ↔
      n < env.settings.maxAttempts ∧
        (AsksToWait env (trials n).reply ∨ (1 ≤ n ∧ n ≤ 7)) := by
  obtain ⟨r, returned, _, status, header⟩ := retryable.returns
  rw [← backoffSchedule_isSome]
  unfold delayAfter nextDelaySeconds
  rw [returned]
  simp only
  rw [status, header, retryable.maxAttempts]
  by_cases spent : env.settings.maxAttempts ≤ n
  · rw [if_pos spent]
    simp only [Option.isSome_none, Bool.false_eq_true, false_iff]
    exact fun left => absurd left.1 (not_lt.mpr spent)
  · rw [if_neg spent]
    simp only [not_le.mp spent, true_and]
    cases (trials n).reply with
    | raised exc => simp [Reply.status, AsksToWait]
    | answered response =>
      by_cases limited : response.statusCode = 429
      · cases parsed : parseRetryAfter env.float response.retryAfter with
        | none => simp [Reply.status, Reply.retryAfter, AsksToWait, limited, parsed]
        | some delay => simp [Reply.status, Reply.retryAfter, AsksToWait, limited, parsed]
      · simp [Reply.status, AsksToWait, limited]

/-- `rowAfter` is the row that the worker's attempts leave behind, also those that raise. -/
theorem processDelivery_rowAfter {s : Store} {slot : Uuid}
    (drawn : (trials (n + 1)).Drawn) (opened : ¬ (rowAfter env trials v n).status.Settled)
    (found : s.db.delivery (rowAfter env trials v n).id = some (rowAfter env trials v n))
    (endpoint : (s.db.endpoint (rowAfter env trials v n).endpointId).isSome = true)
    (event : (s.db.event (rowAfter env trials v n).eventId).isSome = true) :
    (processDelivery env (trials (n + 1)) { v with delivery := rowAfter env trials v n }
      slot s).1.db.delivery (rowAfter env trials v n).id =
        some (rowAfter env trials v (n + 1)) := by
  have undelivered : (rowAfter env trials v n).status ≠ .delivered :=
    fun delivered => opened (Or.inl delivered)
  have first : (begun s (rowAfter env trials v n) ((trials (n + 1)).clock 3)).db.delivery
      (rowAfter env trials v n).id = some (delivering (rowAfter env trials v n)) := by
    have committed := delivery_commit (s := s) .delivering (rowAfter env trials v n)
      (delivering (rowAfter env trials v n))
    have same : (rowAfter env trials v n).flush (delivering (rowAfter env trials v n))
        (rowAfter env trials v n) = delivering (rowAfter env trials v n) :=
      Delivery.flush_loaded rfl rfl rfl
    rw [found, Option.map_some, same] at committed
    exact committed
  rw [processDelivery_eq (v := { v with delivery := rowAfter env trials v n }) drawn
    (by rw [found]; rfl) undelivered endpoint event, rowAfter]
  simp only [if_neg opened]
  cases returned : (trials (n + 1)).result with
  | none => exact first
  | some r =>
    simp only
    cases resolved : resolve env ((trials (n + 1)).clock 2)
        { v with delivery := delivering (rowAfter env trials v n) } r
        (trials (n + 1)).jitter with
    | none => exact first
    | some answer =>
      obtain ⟨outcome, delay⟩ := answer
      simp only
      split
      · have commits : (recorded env (trials (n + 1))
          { v with delivery := rowAfter env trials v n }
            slot s r.scalars outcome delay).1.db = (attempted s (rowAfter env trials v n) outcome
              r.scalars ((trials (n + 1)).clock 3)).db := by
          cases delay <;> rfl
        rw [commits]
        exact (resolve_resolved resolved).delivery_attempted found
      · exact first

/-- One attempt on a row with `n` attempts: without a delay it is dead if that is stored,
and it stays open otherwise. -/
theorem rowAfter_step (retryable : Retryable (trials (n + 1)).reply)
    (opened : ¬ (rowAfter env trials v n).status.Settled)
    (counted : (rowAfter env trials v n).attemptCount = n) :
    (delayAfter env trials (n + 1) = none →
      ((rowAfter env trials v (n + 1)).status = .dead ↔
        TextStorable (trials (n + 1)).reply)) ∧
    ((delayAfter env trials (n + 1)).isSome = true →
      ¬ (rowAfter env trials v (n + 1)).status.Settled ∧
        (rowAfter env trials v (n + 1)).attemptCount = n + 1) := by
  obtain ⟨r, returned, fails, _, _⟩ := retryable.returns
  have number : (delivering (rowAfter env trials v n)).attemptCount = n + 1 :=
    congrArg (fun k => k + 1) counted
  have delays : delayAfter env trials (n + 1) = nextDelaySeconds env.float (n + 1) r.httpStatus
      r.retryAfter env.settings.maxAttempts (trials (n + 1)).jitter := by
    unfold delayAfter
    rw [returned]
  rw [rowAfter, ← storable_result returned]
  simp only [if_neg opened, returned]
  unfold resolve
  rw [fails, if_neg Bool.false_ne_true]
  simp only [number]
  rw [← delays]
  constructor
  · intro noDelay
    rw [noDelay]
    simp only
    by_cases stores : r.Storable
    · rw [if_pos stores]
      exact ⟨fun _ => stores, fun _ => rfl⟩
    · rw [if_neg stores]
      exact ⟨nofun, fun held => absurd held stores⟩
  · intro someDelay
    obtain ⟨delay, delays⟩ := Option.isSome_iff_exists.mp someDelay
    rw [delays]
    cases delay with
    | finite q =>
      simp only
      split
      · exact ⟨not_settled_failed, rfl⟩
      · exact ⟨not_settled_delivering, number⟩
    | posInf => exact ⟨not_settled_delivering, number⟩
    | negInf => exact ⟨not_settled_delivering, number⟩
    | nan => exact ⟨not_settled_delivering, number⟩

/-- A settled row stays as it is. -/
theorem rowAfter_settled {k : Nat} (settled : (rowAfter env trials v n).status.Settled)
    (later : n ≤ k) : rowAfter env trials v k = rowAfter env trials v n := by
  induction k, later using Nat.le_induction with
  | base => rfl
  | succ k _ ih =>
    rw [← ih] at settled
    rw [rowAfter]
    simp only [if_pos settled]
    exact ih

/-- Attempt by attempt the row stays open while there are delays. -/
theorem rowAfter_open (fresh : v.delivery.attemptCount = 0)
    (unsettled : ¬ v.delivery.status.Settled) (retryable : ∀ n, Retryable (trials n).reply)
    (delays : ∀ k, 1 ≤ k → k ≤ n → (delayAfter env trials k).isSome = true) :
    ¬ (rowAfter env trials v n).status.Settled ∧ (rowAfter env trials v n).attemptCount = n := by
  induction n with
  | zero => exact ⟨unsettled, fresh⟩
  | succ n ih =>
    obtain ⟨opened, counted⟩ := ih (fun k low high => delays k low (Nat.le_succ_of_le high))
    exact (rowAfter_step (retryable (n + 1)) opened counted).2
      (delays (n + 1) (Nat.succ_pos n) (Nat.le_refl _))

theorem delayAfter_last (retryable : Retryable (trials env.settings.maxAttempts).reply) :
    delayAfter env trials env.settings.maxAttempts = none := by
  refine Option.not_isSome_iff_eq_none.mp (fun delays => ?_)
  exact absurd ((delayAfter_isSome retryable).mp delays).1 (lt_irrefl _)

/-- Failing attempts use the whole budget exactly when every attempt from the eighth
to the one before the last is a 429 that asks to wait, and the snippet of the last
one can be stored. -/
theorem budget_used (positive : 1 ≤ env.settings.maxAttempts)
    (fresh : v.delivery.attemptCount = 0) (unsettled : ¬ v.delivery.status.Settled)
    (retryable : ∀ n, Retryable (trials n).reply) :
    UsesBudget env trials v ↔
      (∀ n, 8 ≤ n → n < env.settings.maxAttempts → AsksToWait env (trials n).reply) ∧
        TextStorable (trials env.settings.maxAttempts).reply := by
  have last := delayAfter_last (retryable env.settings.maxAttempts)
  have ends : (∀ n, 1 ≤ n → n < env.settings.maxAttempts →
        (delayAfter env trials n).isSome = true) →
      ((rowAfter env trials v env.settings.maxAttempts).status = .dead ↔
        TextStorable (trials env.settings.maxAttempts).reply) := by
    intro retried
    obtain ⟨before, count⟩ : ∃ before, env.settings.maxAttempts = before + 1 :=
      ⟨env.settings.maxAttempts - 1, by omega⟩
    obtain ⟨unsettledBefore, counted⟩ := rowAfter_open (n := before) fresh unsettled retryable
      (fun k low high => retried k low (by omega))
    rw [count] at last ⊢
    exact (rowAfter_step (retryable (before + 1)) unsettledBefore counted).1 last
  constructor
  · intro uses
    refine ⟨fun n late left => ?_, (ends uses.retried).mp ((uses.dead _).mpr (Nat.le_refl _))⟩
    obtain ⟨_, delayed⟩ := (delayAfter_isSome (retryable n)).mp (uses.retried n (by omega) left)
    rcases delayed with asks | ⟨_, listed⟩
    · exact asks
    · omega
  · rintro ⟨asks, stores⟩
    have retried : ∀ n, 1 ≤ n → n < env.settings.maxAttempts →
        (delayAfter env trials n).isSome = true := by
      intro n low left
      refine (delayAfter_isSome (retryable n)).mpr ⟨left, ?_⟩
      by_cases late : 8 ≤ n
      · exact Or.inl (asks n late left)
      · exact Or.inr ⟨low, by omega⟩
    have opened : ∀ n, n < env.settings.maxAttempts →
        ¬ (rowAfter env trials v n).status.Settled ∧
          (rowAfter env trials v n).attemptCount = n :=
      fun n left => rowAfter_open fresh unsettled retryable
        (fun k low high => retried k low (lt_of_le_of_lt high left))
    have dies := (ends retried).mpr stores
    refine ⟨retried, last, fun n => ⟨fun dead => ?_, fun reached => ?_⟩⟩
    · by_contra early
      exact (opened n (by omega)).1 (Or.inr dead)
    · rw [rowAfter_settled (Or.inr dies) reached]
      exact dies

/-- Ten attempts: 503 up to the seventh, then 429 with a second to wait. -/
theorem budget_used_ten :
    UsesBudget { settings := { maxAttempts := 10 }, float := fun _ => some (.finite 1) }
      (fun n =>
        { reply :=
            if n < 8 then .answered ⟨503, some [], none⟩
            else .answered ⟨429, some [], some "1"⟩ })
      firstAttempt := by
  refine (budget_used (by decide) rfl (by decide) (fun n => ?_)).mpr
    ⟨fun n late _ => ?_, by decide +kernel⟩
  · by_cases early : n < 8
    · simp only [if_pos early]
      exact ⟨rfl, Or.inl (by decide)⟩
    · simp only [if_neg early]
      exact ⟨rfl, Or.inr (Or.inr rfl)⟩
  · simp only [if_neg (not_lt.mpr late)]
    exact ⟨rfl, by decide +kernel⟩

/-- Nine attempts are configured, every answer is 503: dead after the eighth. -/
theorem budget_cut : ¬ ∀ (env : Env) (trials : Nat → Trial) (v : Locals),
    1 ≤ env.settings.maxAttempts → v.delivery.attemptCount = 0 →
      ¬ v.delivery.status.Settled →
      (∀ n, Retryable (trials n).reply) → UsesBudget env trials v := by
  intro claimed
  have uses := claimed { settings := { maxAttempts := 9 }, float := fun _ => none }
    (fun _ => { reply := .answered ⟨503, some [], none⟩ }) firstAttempt (by decide) rfl
    (by decide) (fun _ => ⟨rfl, Or.inl (by decide)⟩)
  have retried := uses.retried 8 (by decide) (by decide)
  revert retried
  decide +kernel

end Relay.Worker
