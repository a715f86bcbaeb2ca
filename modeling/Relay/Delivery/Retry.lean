import Mathlib.Data.Rat.Defs
import Mathlib.Algebra.Order.Ring.Rat

/-!
# Retry policy

What counts as retryable, and how long to wait. Python's `float` on a header
string is a parameter: it fails or gives a number, an infinity or nan.
-/

namespace Relay.Retry

/-- A Python float in exact arithmetic. -/
inductive PyFloat where
  | finite (q : ℚ)
  | posInf
  | negInf
  | nan
  deriving DecidableEq

/-- Python's `<`; every comparison with nan is false. -/
def PyFloat.lt : PyFloat → PyFloat → Bool
  | .finite a, .finite b => decide (a < b)
  | .finite _, .posInf => true
  | .negInf, .finite _ => true
  | .negInf, .posInf => true
  | _, _ => false

/-- Python's `min(a, b)`: the second argument only if it is smaller. -/
def PyFloat.min (a b : PyFloat) : PyFloat := if b.lt a then b else a

@[simp] theorem PyFloat.lt_finite {a b : ℚ} : (finite a).lt (finite b) = true ↔ a < b :=
  decide_eq_true_iff

theorem PyFloat.min_finite (a b : ℚ) : (finite a).min (finite b) = finite (Min.min a b) := by
  unfold PyFloat.min
  by_cases less : b < a
  · rw [if_pos (lt_finite.mpr less), min_eq_right less.le]
  · rw [if_neg (fun h => less (lt_finite.mp h)), min_eq_left (not_lt.mp less)]

def backoffSchedule : Nat → Option ℚ
  | 1 => some 5
  | 2 => some 30
  | 3 => some (2 * 60)
  | 4 => some (10 * 60)
  | 5 => some (30 * 60)
  | 6 => some (2 * 60 * 60)
  | 7 => some (5 * 60 * 60)
  | _ => none

def jitterMin : ℚ := 8 / 10
def jitterMax : ℚ := 12 / 10
def terminal4xxMaxAttempts : Nat := 3
def retryAfterCapSeconds : ℚ := 60 * 60

def isTerminalStatus : Option Nat → Bool
  | none => false
  | some status => decide (400 ≤ status ∧ status < 500 ∧ status ≠ 408 ∧ status ≠ 429)

def maxAttemptsFor (httpStatus : Option Nat) (configuredMax : Nat) : Nat :=
  if isTerminalStatus httpStatus then min terminal4xxMaxAttempts configuredMax else configuredMax

/-- `parse_retry_after`; `float` stands for Python's parse of the stripped text. -/
def parseRetryAfter (float : String → Option PyFloat) (value : Option String) : Option PyFloat :=
  match value with
  | none => none
  | some text =>
    if text = "" then none
    else
      match float text with
      | none => none
      | some seconds =>
        if seconds.lt (.finite 0) then none
        else some (seconds.min (.finite retryAfterCapSeconds))

/-- `next_delay_seconds`; `jitter` is the factor that `uniform` draws. -/
def nextDelaySeconds (float : String → Option PyFloat) (attemptNumber : Nat)
    (httpStatus : Option Nat) (retryAfter : Option String) (configuredMax : Nat) (jitter : ℚ) :
    Option PyFloat :=
  if maxAttemptsFor httpStatus configuredMax ≤ attemptNumber then none
  else
    match if httpStatus = some 429 then parseRetryAfter float retryAfter else none with
    | some explicit => some explicit
    | none => (backoffSchedule attemptNumber).map (fun base => .finite (base * jitter))

/-- A parsed header is nan or lies between zero and the cap. -/
theorem parseRetryAfter_bounded {float : String → Option PyFloat} {value : Option String}
    {x : PyFloat} (parsed : parseRetryAfter float value = some x) :
    x = .nan ∨ ∃ q, x = .finite q ∧ 0 ≤ q ∧ q ≤ retryAfterCapSeconds := by
  unfold parseRetryAfter at parsed
  split at parsed
  · cases parsed
  · split at parsed
    · cases parsed
    · split at parsed
      · cases parsed
      · rename_i seconds _
        split at parsed
        · cases parsed
        · rename_i admitted
          have capped : x = seconds.min (.finite retryAfterCapSeconds) :=
            (Option.some.inj parsed).symm
          cases seconds with
          | nan => exact Or.inl capped
          | negInf => exact absurd rfl admitted
          | posInf => exact Or.inr ⟨retryAfterCapSeconds, capped, by decide +kernel, le_refl _⟩
          | finite q =>
            have nonneg : 0 ≤ q :=
              not_lt.mp (fun below => admitted (PyFloat.lt_finite.mpr below))
            rw [PyFloat.min_finite] at capped
            exact Or.inr ⟨_, capped, le_min nonneg (by decide +kernel), min_le_right _ _⟩

theorem maxAttemptsFor_429 (configuredMax : Nat) :
    maxAttemptsFor (some 429) configuredMax = configuredMax := rfl

/-- The only delay that is no number is the nan of a 429 with attempts left. -/
theorem nextDelaySeconds_some {float : String → Option PyFloat} {attemptNumber : Nat}
    {httpStatus : Option Nat} {retryAfter : Option String} {configuredMax : Nat} {jitter : ℚ}
    {x : PyFloat}
    (delays : nextDelaySeconds float attemptNumber httpStatus retryAfter configuredMax jitter =
      some x) :
    (∃ q, x = .finite q) ∨
      (x = .nan ∧ attemptNumber < configuredMax ∧ httpStatus = some 429 ∧
        parseRetryAfter float retryAfter = some .nan) := by
  unfold nextDelaySeconds at delays
  split at delays
  · cases delays
  · rename_i left
    by_cases limited : httpStatus = some 429
    · rw [if_pos limited] at delays
      subst limited
      cases parsed : parseRetryAfter float retryAfter with
      | none =>
        rw [parsed] at delays
        obtain ⟨base, _, rfl⟩ := Option.map_eq_some_iff.mp delays
        exact Or.inl ⟨base * jitter, rfl⟩
      | some explicit =>
        rw [parsed] at delays
        cases delays
        rcases parseRetryAfter_bounded parsed with rfl | ⟨q, rfl, _⟩
        · exact Or.inr ⟨rfl, not_le.mp left, rfl, rfl⟩
        · exact Or.inl ⟨q, rfl⟩
    · rw [if_neg limited] at delays
      obtain ⟨base, _, rfl⟩ := Option.map_eq_some_iff.mp delays
      exact Or.inl ⟨base * jitter, rfl⟩

theorem nextDelaySeconds_429 {float : String → Option PyFloat} {attemptNumber : Nat}
    {retryAfter : Option String} {configuredMax : Nat} {jitter : ℚ} {x : PyFloat}
    (left : attemptNumber < configuredMax) (parsed : parseRetryAfter float retryAfter = some x) :
    nextDelaySeconds float attemptNumber (some 429) retryAfter configuredMax jitter = some x := by
  rw [nextDelaySeconds, maxAttemptsFor_429, if_neg (not_le.mpr left), if_pos rfl, parsed]

end Relay.Retry
