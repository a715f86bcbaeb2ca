import Relay.Delivery.BreakerHistory
import Relay.Lib.TimedWindow
import Relay.Lib.Transition
import Mathlib.Algebra.Order.Field.Basic
import Mathlib.Tactic.NormNum

/-!
# When the breaker opens

The script decides from trimmed sorted sets that may have expired and from a
counter in a hash. Beside the whole history they are the failures in a row and
the outcomes of the last five minutes.
-/

namespace Relay.CircuitBreaker.Watched

open Transition TimedWindow

variable {x y : Watched} {c : Call} {endpointId : Uuid}

/-- The members that an outcome adds to the window of all attempts. -/
def entry (r : Recording) : Uuid × ℚ := (r.member, r.time)

def failed (l : List Recording) : List Recording := l.filter (fun r => !r.success)

/-- The outcomes in `(t - 300, t]`. -/
def within (t : ℚ) (l : List Recording) : List Recording :=
  l.filter (fun r => t - windowSeconds < r.time ∧ r.time ≤ t)

/-- The breaker as a function of the history. -/
structure Faithful (x : Watched) : Prop where
  attempts : Keeps windowSeconds x.breaker.attempts (x.outcomes.map entry) x.latest
  failures : Keeps windowSeconds x.breaker.failures ((failed x.outcomes).map entry) x.latest
  past : ∀ r ∈ x.outcomes, ∃ l ∈ x.latest, r.time ≤ l
  known : ∀ r ∈ x.outcomes, r.member ∈ x.members
  consecutive : x.breaker.consecutive.getD 0 = x.streak
  quiet : x.breaker.current = .closed →
    x.streak ≤ 9 ∧ x.breaker.openedAt = none ∧ x.breaker.lastProbeAt = none

theorem faithful_initial : initial.Faithful where
  attempts := keeps_none
  failures := keeps_none
  past := fun _ listed => by cases listed
  known := fun _ listed => by cases listed
  consecutive := rfl
  quiet := fun _ => ⟨Nat.zero_le 9, rfl, rfl⟩

/-- When a failure opens a closed breaker, from the counters after recording it. -/
theorem nextState_closed_iff {consecutive attempts failures : Nat} :
    nextState .closed false consecutive attempts failures = .opened ↔
      10 ≤ consecutive ∨ (20 ≤ attempts ∧ (attempts : ℚ) / 2 < failures) := by
  have rate : 20 ≤ attempts →
      ((1 / 2 : ℚ) < (failures : ℚ) / attempts ↔ (attempts : ℚ) / 2 < failures) := by
    intro enough
    have positive : (0 : ℚ) < attempts := Nat.cast_pos.mpr (by omega)
    rw [lt_div_iff₀ positive, div_mul_eq_mul_div, one_mul]
  simp only [nextState, Bool.false_eq_true, if_false]
  show (if 10 ≤ consecutive ∨
    (20 ≤ attempts ∧ (1 / 2 : ℚ) < (failures : ℚ) / attempts) then
    BreakerState.opened else .closed) = .opened ↔ _
  rw [← and_congr_right rate]
  split
  · rename_i trips
    exact ⟨fun _ => trips, fun _ => rfl⟩
  · rename_i stays
    exact ⟨(fun opened => by cases opened), fun trips => absurd trips stays⟩

theorem length_within {l : List Recording} {r : Recording}
    (past : ∀ s ∈ l, s.time ≤ r.time) :
    (within r.time (l ++ [r])).length =
      ((l.map entry).filter (fun e => r.time - windowSeconds < e.2)).length + 1 := by
  have inside : r.time - windowSeconds < r.time := sub_lt_self _ (by decide +kernel)
  have older : l.filter (fun s => r.time - windowSeconds < s.time ∧ s.time ≤ r.time) =
      l.filter (fun s => r.time - windowSeconds < s.time) := by
    apply List.filter_congr
    intro s listed
    simp [past s listed]
  have last : [r].filter (fun s => r.time - windowSeconds < s.time ∧ s.time ≤ r.time) = [r] :=
    List.filter_cons_of_pos (decide_eq_true ⟨inside, le_refl _⟩)
  rw [within, List.filter_append, older, last, List.length_append, List.filter_map,
    List.length_map]
  rfl

/-- A failure is one more failure of its window. -/
theorem failed_within {l : List Recording} {r : Recording} (failure : r.success = false) :
    failed (within r.time (l ++ [r])) = within r.time (failed l ++ [r]) := by
  unfold failed within
  rw [List.filter_comm, List.filter_append, List.filter_cons_of_pos (by rw [failure]; rfl),
    List.filter_nil]

theorem Faithful.before (faithful : x.Faithful) {now : ℚ}
    (order : ∀ t ∈ x.latest, t ≤ now) : ∀ r ∈ x.outcomes, r.time ≤ now := by
  intro r listed
  obtain ⟨l, latest, upTo⟩ := faithful.past r listed
  exact le_trans upTo (order l latest)

theorem Faithful.new_member (faithful : x.Faithful) {member : Uuid} (new : member ∉ x.members)
    {l : List Recording} (part : l ⊆ x.outcomes) : member ∉ (l.map entry).map Prod.fst := by
  intro listed
  obtain ⟨e, mapped, same⟩ := List.mem_map.mp listed
  obtain ⟨r, inside, rfl⟩ := List.mem_map.mp mapped
  exact new (same ▸ faithful.known r (part inside))

/-- The number of members after a recording. -/
theorem card_zadd {stored : Option (Expiring (ZSet Uuid))} {l : List Recording}
    {latest : Option ℚ} {r : Recording} (keeps : Keeps windowSeconds stored (l.map entry) latest)
    (order : ∀ t ∈ latest, t ≤ r.time) (past : ∀ s ∈ l, s.time ≤ r.time)
    (new : r.member ∉ (l.map entry).map Prod.fst) :
    ((trim r.time (r.time - windowSeconds) stored).zadd r.member r.time).card =
      (within r.time (l ++ [r])).length := by
  have entries := congrArg List.length (keeps.entries_zadd order new)
  rw [List.length_append] at entries
  rw [length_within past]
  exact entries

/-- The answer to a failure of a closed breaker, from the history. -/
theorem Faithful.answer (faithful : x.Faithful) {now : ℚ} {member : Uuid}
    (closed : x.breaker.current = .closed)
    (admitted : x.InTime (.recordOutcome now now false member)) :
    (recordOutcomeLua x.breaker now now false member).2.state = .opened ↔
      10 ≤ x.streak + 1 ∨
        (20 ≤ (within now (x.outcomes ++ [⟨now, false, member⟩])).length ∧
          ((within now (x.outcomes ++ [⟨now, false, member⟩])).length : ℚ) / 2 <
            (failed (within now (x.outcomes ++ [⟨now, false, member⟩]))).length) := by
  obtain ⟨order, _, new⟩ := admitted
  have past := faithful.before order
  have some_failed : failed x.outcomes ⊆ x.outcomes := List.filter_sublist.subset
  have attempts : ((trim now (now - windowSeconds) x.breaker.attempts).zadd member now).card =
      (within now (x.outcomes ++ [⟨now, false, member⟩])).length :=
    card_zadd (r := ⟨now, false, member⟩) faithful.attempts order past
      (faithful.new_member new (fun _ listed => listed))
  have failures : ((trim now (now - windowSeconds) x.breaker.failures).zadd member now).card =
      (failed (within now (x.outcomes ++ [⟨now, false, member⟩]))).length := by
    rw [failed_within (r := ⟨now, false, member⟩) rfl]
    exact card_zadd (r := ⟨now, false, member⟩) faithful.failures order
      (fun s listed => past s (some_failed listed)) (faithful.new_member new some_failed)
  rw [← attempts, ← failures, ← faithful.consecutive, ← nextState_closed_iff, ← closed]
  exact Iff.rfl

theorem Faithful.allow (faithful : x.Faithful) {now : ℚ} (order : ∀ t ∈ x.latest, t ≤ now) :
    Faithful { x with breaker := (allowRequestLua x.breaker now).1, latest := some now } := by
  obtain ⟨attempts, failures, consecutive⟩ := allowRequestLua_keeps x.breaker now
  refine ⟨?_, ?_, fun r listed => ⟨now, rfl, faithful.before order r listed⟩,
    faithful.known, ?_, ?_⟩
  · rw [attempts]
    exact faithful.attempts.later order
  · rw [failures]
    exact faithful.failures.later order
  · rw [consecutive]
    exact faithful.consecutive
  · intro closed
    cases allowRequestLua_allows x.breaker now with
    | allowed before same =>
      rw [same]
      exact faithful.quiet before
    | denied broken same =>
      rw [same] at closed
      exact absurd closed broken
    | probes _ _ current =>
      rw [current] at closed
      cases closed

/-- A recording that does not close the breaker joins the windows. -/
theorem Faithful.record (faithful : x.Faithful) {now : ℚ} {success : Bool} {member : Uuid}
    (admitted : x.InTime (.recordOutcome now now success member))
    (stays : ¬ Closes (recordOutcomeLua x.breaker now now success member).2)
    (next : Watched.step endpointId (.recordOutcome now now success member) x = some y) :
    Keeps windowSeconds y.breaker.attempts (y.outcomes.map entry) y.latest ∧
      Keeps windowSeconds y.breaker.failures ((failed y.outcomes).map entry) y.latest ∧
      y.breaker.consecutive.getD 0 = y.streak := by
  obtain ⟨order, _, new⟩ := admitted
  have past := faithful.before order
  have some_failed : failed x.outcomes ⊆ x.outcomes := List.filter_sublist.subset
  have past_entries : ∀ l : List Recording, l ⊆ x.outcomes →
      ∀ e ∈ l.map entry, e.2 ≤ now := by
    intro l part e listed
    obtain ⟨r, inside, rfl⟩ := List.mem_map.mp listed
    exact past r (part inside)
  cases recordOutcomeLua_counts x.breaker now now success member with
  | closes _ closes => exact absurd closes stays
  | counts _ attempts failures consecutive =>
    cases next
    simp only [if_neg stays]
    refine ⟨?_, ?_, ?_⟩
    · rw [attempts, List.map_append]
      exact faithful.attempts.add order (past_entries _ (fun _ listed => listed))
        (faithful.new_member new (fun _ listed => listed)) (by decide +kernel)
    · rw [failures]
      cases success with
      | true =>
        rw [if_pos rfl]
        have same : failed (x.outcomes ++ [⟨now, true, member⟩]) = failed x.outcomes := by
          simp [failed]
        rw [same]
        exact faithful.failures.trim order
      | false =>
        have more : failed (x.outcomes ++ [⟨now, false, member⟩]) =
            failed x.outcomes ++ [⟨now, false, member⟩] := by simp [failed]
        rw [more, List.map_append]
        exact faithful.failures.add order (past_entries _ some_failed)
          (faithful.new_member new some_failed) (by decide +kernel)
    · rw [consecutive, Option.getD_some, faithful.consecutive]

/-- A closed breaker has nine failures in a row at most, and no times. -/
theorem Faithful.quiet_after (faithful : x.Faithful) {now : ℚ} {success : Bool} {member : Uuid}
    (admitted : x.InTime (.recordOutcome now now success member))
    (closed : (recordOutcomeLua x.breaker now now success member).1.current = .closed) :
    (if success then 0 else x.streak + 1) ≤ 9 ∧
      (recordOutcomeLua x.breaker now now success member).1.openedAt = none ∧
      (recordOutcomeLua x.breaker now now success member).1.lastProbeAt = none := by
  cases recordOutcomeLua_records x.breaker now now success member with
  | keeps current _ openedAt lastProbeAt =>
    have before : x.breaker.current = .closed := current.symm.trans closed
    obtain ⟨_, noOpening, noProbe⟩ := faithful.quiet before
    refine ⟨?_, openedAt.trans noOpening, lastProbeAt.trans noProbe⟩
    cases success with
    | true => exact Nat.zero_le 9
    | false =>
      by_contra tenth
      have opens := (faithful.answer before admitted).mpr (Or.inl (Nat.lt_of_not_le tenth))
      rw [← recordOutcomeLua_current, closed] at opens
      cases opens
  | opens _ _ current =>
    rw [current] at closed
    cases closed
  | closes succeeded _ _ openedAt lastProbeAt =>
    subst succeeded
    exact ⟨Nat.zero_le 9, openedAt, lastProbeAt⟩

theorem Faithful.step (faithful : x.Faithful) (admitted : x.InTime c)
    (next : step endpointId c x = some y) : y.Faithful := by
  cases c with
  | allowRequest now =>
    cases next
    exact faithful.allow admitted
  | recordOutcome clock now success member =>
    obtain ⟨order, rfl, new⟩ := admitted
    have inTime : x.InTime (.recordOutcome clock clock success member) := ⟨order, rfl, new⟩
    have quiet := faithful.quiet_after inTime
    by_cases closes : Closes (recordOutcomeLua x.breaker clock clock success member).2
    · cases recordOutcomeLua_counts x.breaker clock clock success member with
      | closes succeeded _ attempts failures consecutive =>
        cases next
        subst succeeded
        simp only [if_pos closes]
        exact ⟨attempts ▸ keeps_none, failures ▸ keeps_none,
          (fun _ listed => by cases listed),
          (fun _ listed => by cases listed), by rw [consecutive]; rfl, quiet⟩
      | counts stays => exact absurd closes stays
    · obtain ⟨attempts, failures, consecutive⟩ :=
        faithful.record inTime closes next
      cases next
      refine ⟨attempts, failures, ?_, ?_, consecutive, quiet⟩
      · simp only [if_neg closes]
        intro r listed
        rcases List.mem_append.mp listed with earlier | last
        · exact ⟨clock, rfl, faithful.before order r earlier⟩
        · rw [List.mem_singleton.mp last]
          exact ⟨clock, rfl, le_refl _⟩
      · simp only [if_neg closes]
        intro r listed
        rcases List.mem_append.mp listed with earlier | last
        · exact List.mem_cons_of_mem _ (faithful.known r earlier)
        · rw [List.mem_singleton.mp last]
          exact List.mem_cons_self
  | reset =>
    cases next
    exact ⟨keeps_none, keeps_none, (fun _ listed => by cases listed),
      (fun _ listed => by cases listed), rfl, fun _ => ⟨Nat.zero_le 9, rfl, rfl⟩⟩

/-- The breaker opens exactly at the tenth failure in a row, or when more than
half of at least twenty outcomes of the last five minutes are failures. -/
theorem breaker_opens (run : Run (step endpointId) InTime initial x) :
    (∀ now member y, x.breaker.current = .closed →
      x.InTime (.recordOutcome now now false member) →
      step endpointId (.recordOutcome now now false member) x = some y →
        (y.breaker.current = .opened ↔
          10 ≤ x.streak + 1 ∨
            (20 ≤ (within now (x.outcomes ++ [⟨now, false, member⟩])).length ∧
              ((within now (x.outcomes ++ [⟨now, false, member⟩])).length : ℚ) / 2 <
                (failed (within now (x.outcomes ++ [⟨now, false, member⟩]))).length))) ∧
    (∀ clock now member y, step endpointId (.recordOutcome clock now true member) x = some y →
      y.breaker.current ≠ .opened) ∧
    (x.breaker.current = .closed → x.breaker.consecutive.getD 0 ≤ 9 ∧
      x.breaker.openedAt = none ∧ x.breaker.lastProbeAt = none) := by
  have faithful : x.Faithful := run.invariant (I := Faithful) faithful_initial
    (fun faithful admitted next => faithful.step admitted next)
  refine ⟨fun now member y closed admitted next => ?_, fun clock now member y next => ?_,
    fun closed => ?_⟩
  · cases next
    rw [recordOutcomeLua_current]
    exact faithful.answer closed admitted
  · cases next
    rw [recordOutcomeLua_success]
    decide
  · rw [faithful.consecutive]
    exact faithful.quiet closed

/-- Two failures and a success in turn: the breaker opens at the twentieth outcome. -/
theorem breaker_opens_rate : ∃ x : Watched, Run (step 1) InTime initial x ∧
    x.breaker.current = .closed ∧ x.breaker.consecutive.getD 0 ≤ 9 ∧
      ∀ y, step 1 (.recordOutcome 20 20 false 20) x = some y → y.breaker.current = .opened := by
  have evaluates : (exec (step 1) (fun x c => decide (x.InTime c))
      ((List.range 19).map (fun (i : Nat) =>
        .recordOutcome i i (decide (i % 3 = 2)) (BitVec.ofNat 128 i))) initial).elim false
      (fun x => decide (x.breaker.current = .closed ∧ x.InTime (.recordOutcome 20 20 false 20) ∧
        (within 20 (x.outcomes ++ [⟨20, false, 20⟩])).length = 20 ∧
        (failed (within 20 (x.outcomes ++ [⟨20, false, 20⟩]))).length = 14)) = true := by
    decide +kernel
  obtain ⟨x, executed, passes⟩ := reached evaluates
  obtain ⟨closed, inTime, attempts, failures⟩ := of_decide_eq_true passes
  have run := run_of_exec (fun _ _ => of_decide_eq_true) executed
  obtain ⟨opens, _, quiet⟩ := breaker_opens run
  refine ⟨x, run, closed, (quiet closed).1, fun y next => ?_⟩
  refine (opens 20 20 y closed inTime next).mpr (Or.inr ?_)
  rw [attempts, failures]
  exact ⟨le_refl _, by norm_num⟩

end Relay.CircuitBreaker.Watched
