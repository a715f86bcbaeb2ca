import Mathlib.Tactic.Linarith
import Relay.Delivery.Attempt

/-!
# How long a retry waits

The schedule and its jitter stay under six hours. A Retry-After is capped at one
hour, unless it is read as nan: nan is not below zero and `min` keeps it.
-/

namespace Relay.Retry

/-- The six hours that the longest step of the schedule reaches with jitter. -/
def maxDelay : ℚ := 21600

/-- A Retry-After that `float` reads as nan. -/
def NanHeader (float : String → Option PyFloat) (retryAfter : Option String) : Prop :=
  ∃ text, retryAfter = some text ∧ text ≠ "" ∧ float text = some .nan

/-- The delay is the Retry-After of a 429. -/
def Honours (float : String → Option PyFloat) (httpStatus : Option Nat)
    (retryAfter : Option String) : Prop :=
  httpStatus = some 429 ∧ (parseRetryAfter float retryAfter).isSome

/-- No further attempt, or a number of seconds within the bounds. -/
def Bounded (delay : Option PyFloat) (honoured : Prop) : Prop :=
  ∀ x, delay = some x → ∃ d, x = .finite d ∧ 0 ≤ d ∧ d ≤ maxDelay ∧
    (honoured → d ≤ retryAfterCapSeconds)

theorem parseRetryAfter_eq_nan {float : String → Option PyFloat} {retryAfter : Option String} :
    parseRetryAfter float retryAfter = some .nan ↔ NanHeader float retryAfter := by
  constructor
  · intro parsed
    unfold parseRetryAfter at parsed
    split at parsed
    · cases parsed
    · rename_i text
      split at parsed
      · cases parsed
      · rename_i nonempty
        split at parsed
        · cases parsed
        · rename_i seconds reads
          split at parsed
          · cases parsed
          · rename_i admitted
            have kept : seconds.min (.finite retryAfterCapSeconds) = .nan := Option.some.inj parsed
            refine ⟨text, rfl, nonempty, ?_⟩
            cases seconds with
            | nan => exact reads
            | finite q =>
              rw [PyFloat.min_finite] at kept
              cases kept
            | posInf => cases kept
            | negInf => exact absurd rfl admitted
  · rintro ⟨text, rfl, nonempty, reads⟩
    unfold parseRetryAfter
    simp only [if_neg nonempty, reads]
    rfl

/-- Every step of the schedule is a positive number of seconds, five hours at most. -/
theorem backoffSchedule_bounds {attemptNumber : Nat} {base : ℚ}
    (step : backoffSchedule attemptNumber = some base) : 0 ≤ base ∧ base ≤ 5 * 60 * 60 := by
  unfold backoffSchedule at step
  split at step
  case h_8 => cases step
  all_goals
    cases step
    constructor <;> norm_num

/-- `apply_jitter` keeps a step of the schedule within the bounds. -/
theorem jittered_bounds {base jitter : ℚ} (nonneg : 0 ≤ base) (short : base ≤ 5 * 60 * 60)
    (low : jitterMin ≤ jitter) (high : jitter ≤ jitterMax) :
    0 ≤ base * jitter ∧ base * jitter ≤ maxDelay := by
  have positive : 0 ≤ jitter := le_trans (by norm_num [jitterMin]) low
  constructor
  · exact mul_nonneg nonneg positive
  · calc base * jitter ≤ 5 * 60 * 60 * jitterMax :=
        mul_le_mul short high positive (by norm_num)
      _ = maxDelay := by norm_num [jitterMax, maxDelay]

/-- A 429 with attempts left waits as long as its header says. -/
theorem nextDelaySeconds_honoured {float : String → Option PyFloat} {attemptNumber : Nat}
    {httpStatus : Option Nat} {retryAfter : Option String} {configuredMax : Nat} {jitter : ℚ}
    {x : PyFloat} (honoured : Honours float httpStatus retryAfter)
    (delays : nextDelaySeconds float attemptNumber httpStatus retryAfter configuredMax jitter =
      some x) :
    attemptNumber < configuredMax ∧ parseRetryAfter float retryAfter = some x := by
  obtain ⟨rfl, parses⟩ := honoured
  obtain ⟨explicit, parsed⟩ := Option.isSome_iff_exists.mp parses
  unfold nextDelaySeconds at delays
  split at delays
  · cases delays
  · rename_i left
    rw [if_pos rfl, parsed] at delays
    cases delays
    exact ⟨not_le.mp left, parsed⟩

/-- Without a header to honour, the delay is a jittered step of the schedule. -/
theorem nextDelaySeconds_scheduled {float : String → Option PyFloat} {attemptNumber : Nat}
    {httpStatus : Option Nat} {retryAfter : Option String} {configuredMax : Nat} {jitter : ℚ}
    {x : PyFloat} (own : ¬ Honours float httpStatus retryAfter)
    (delays : nextDelaySeconds float attemptNumber httpStatus retryAfter configuredMax jitter =
      some x) :
    ∃ base, backoffSchedule attemptNumber = some base ∧ x = .finite (base * jitter) := by
  have unparsed : (if httpStatus = some 429 then parseRetryAfter float retryAfter else none) =
      none := by
    by_cases limited : httpStatus = some 429
    · rw [if_pos limited]
      exact Option.not_isSome_iff_eq_none.mp (fun parses => own ⟨limited, parses⟩)
    · exact if_neg limited
  unfold nextDelaySeconds at delays
  rw [unparsed] at delays
  split at delays
  · cases delays
  · obtain ⟨base, step, rfl⟩ := Option.map_eq_some_iff.mp delays
    exact ⟨base, step, rfl⟩

/-- Delays are bounded, but for the nan of a 429 with attempts left. -/
theorem delay_bounded (float : String → Option PyFloat) (attemptNumber : Nat)
    (httpStatus : Option Nat) (retryAfter : Option String) (configuredMax : Nat) {jitter : ℚ}
    (low : jitterMin ≤ jitter) (high : jitter ≤ jitterMax) :
    Bounded (nextDelaySeconds float attemptNumber httpStatus retryAfter configuredMax jitter)
        (Honours float httpStatus retryAfter) ↔
      ¬ (httpStatus = some 429 ∧ attemptNumber < configuredMax ∧
        NanHeader float retryAfter) := by
  constructor
  · rintro bounded ⟨rfl, left, nan⟩
    have delays : nextDelaySeconds float attemptNumber (some 429) retryAfter configuredMax jitter =
        some .nan := nextDelaySeconds_429 left (parseRetryAfter_eq_nan.mpr nan)
    obtain ⟨d, number, _⟩ := bounded _ delays
    cases number
  · intro number x delays
    by_cases honoured : Honours float httpStatus retryAfter
    · obtain ⟨left, parsed⟩ := nextDelaySeconds_honoured honoured delays
      rcases parseRetryAfter_bounded parsed with rfl | ⟨d, rfl, nonneg, capped⟩
      · exact absurd ⟨honoured.1, left, parseRetryAfter_eq_nan.mp parsed⟩ number
      · have short : retryAfterCapSeconds ≤ maxDelay := by
          norm_num [retryAfterCapSeconds, maxDelay]
        exact ⟨d, rfl, nonneg, le_trans capped short, fun _ => capped⟩
    · obtain ⟨base, step, rfl⟩ := nextDelaySeconds_scheduled honoured delays
      obtain ⟨nonneg, short⟩ := backoffSchedule_bounds step
      obtain ⟨above, below⟩ := jittered_bounds nonneg short low high
      exact ⟨base * jitter, rfl, above, below, fun own => absurd own honoured⟩

/-- The first retry after a 503, with the least jitter. -/
theorem delay_bounded_503 :
    jitterMin ≤ jitterMin ∧ jitterMin ≤ jitterMax ∧
      Bounded (nextDelaySeconds Worker.readsNan.float 1 (some 503) none 7 jitterMin)
        (Honours Worker.readsNan.float (some 503) none) :=
  ⟨le_refl _, by decide +kernel,
    (delay_bounded Worker.readsNan.float 1 (some 503) none 7 (le_refl _) (by decide +kernel)).mpr
      (fun limited => absurd limited.1 (by decide))⟩

/-- The first attempt is answered with 429 and a Retry-After of nan. -/
theorem delay_nan :
    jitterMin ≤ 1 ∧ 1 ≤ jitterMax ∧
      ¬ Bounded (nextDelaySeconds Worker.readsNan.float 1 (some 429) (some "nan") 7 1)
        (Honours Worker.readsNan.float (some 429) (some "nan")) := by
  refine ⟨by decide +kernel, by decide +kernel, fun bounded => ?_⟩
  have delays : nextDelaySeconds Worker.readsNan.float 1 (some 429) (some "nan") 7 1 =
      some .nan := by decide +kernel
  obtain ⟨d, number, _⟩ := bounded _ delays
  cases number

end Relay.Retry
