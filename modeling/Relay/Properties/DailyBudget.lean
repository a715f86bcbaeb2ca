import Relay.Agent.Trigger
import Relay.Lib.Transition
import Mathlib.Tactic.Linarith
import Mathlib.Tactic.Ring

/-!
# The daily budget of the agent under concurrency

INCR hands out the places of a day in order, and who gets a place beyond the
cap gives the endpoint's key back. A call that is done before its key expires
deletes no key but its own.
-/

namespace Relay.Agent.Trigger.Budget

open Transition

variable {settings : AgentSettings} {x y : Budget} {l : BudgetLabel} {i j : Nat} {c : Claim}

/-- Every call is done within the time its key lives. -/
def Within (settings : AgentSettings) (x : Budget) : BudgetLabel → Prop
  | .next i => ∀ c ∈ x.calls i, x.clock < c.startedAt + settings.perHourSeconds
  | _ => True

instance (settings : AgentSettings) (x : Budget) (l : BudgetLabel) :
    Decidable (Within settings x l) :=
  match l with
  | .next i => inferInstanceAs (Decidable (∀ c ∈ x.calls i, _))
  | .tick _ | .call _ _ => isTrue trivial

/-- Call `i` was the `n`-th, from 0, whose INCR hit the counter of `day`. -/
def Placed (x : Budget) (i : Nat) (day : ℤ) (n : Nat) : Prop := (x.counted day)[n]? = some i

/-- What a call has done when it stands at `pc`. -/
def Reached (settings : AgentSettings) (x : Budget) (i : Nat) (startedAt : ℚ) : ClaimPc → Prop
  | .setNx | .readDay => ∀ day n, ¬ x.Placed i day n
  | .incr day => (∀ day n, ¬ x.Placed i day n) ∧ startedAt < (day + 1) * daySeconds ∧
      day * daySeconds ≤ x.clock
  | .expire day used => x.Placed i day 0 ∧ used = 1 ∧ startedAt < (day + 1) * daySeconds ∧
      day * daySeconds ≤ x.clock
  | .delete => ∃ day n, x.Placed i day n ∧ settings.agentMaxRunsPerDay ≤ n
  | .done true reason =>
    reason = none ∧ ∃ day n, x.Placed i day n ∧ n < settings.agentMaxRunsPerDay
  | .done false reason =>
    (reason = some "endpoint_rate_limited" ∧ ∀ day n, ¬ x.Placed i day n) ∨
      (reason = some "daily_budget_exhausted" ∧
        ∃ day n, x.Placed i day n ∧ settings.agentMaxRunsPerDay ≤ n)

/-- Between winning the key and the answer. -/
def ClaimPc.Holds : ClaimPc → Prop
  | .readDay | .incr _ | .expire _ _ | .delete => True
  | _ => False

/-- The key that a call of `endpointId` won, or the time it lives is over. -/
def Owns (settings : AgentSettings) (x : Budget) (i : Nat) (c : Claim) : Prop :=
  c.startedAt + settings.perHourSeconds ≤ x.clock ∨
    ∃ deadline, x.ran c.endpointId = some ⟨i, deadline⟩ ∧
      c.startedAt + settings.perHourSeconds ≤ deadline

/-- What every run keeps. -/
structure Sound (settings : AgentSettings) (x : Budget) : Prop where
  started : ∀ i c, x.calls i = some c → c.startedAt ≤ x.clock
  reached : ∀ i c, x.calls i = some c → x.Reached settings i c.startedAt c.pc
  known : ∀ i day n, x.Placed i day n → (x.calls i).isSome = true
  once : ∀ i day n day' n', x.Placed i day n → x.Placed i day' n' → day = day' ∧ n = n'
  counter : ∀ day, match x.daily day with
    | none => (x.counted day).length = 0
    | some k => k.used = (x.counted day).length ∧
        ∀ t ∈ k.deadline, (day + 2) * daySeconds ≤ t
  held : ∀ i c, x.calls i = some c → ClaimPc.Holds c.pc → Owns settings x i c

theorem Reached.mono {startedAt : ℚ} {pc : ClaimPc} (later : x.clock ≤ y.clock)
    (placed : ∀ day n, y.Placed i day n ↔ x.Placed i day n)
    (reached : x.Reached settings i startedAt pc) : y.Reached settings i startedAt pc := by
  cases pc with
  | setNx => exact fun day n h => reached day n ((placed day n).mp h)
  | readDay => exact fun day n h => reached day n ((placed day n).mp h)
  | incr day =>
    obtain ⟨unplaced, early, late⟩ := reached
    exact ⟨fun day n h => unplaced day n ((placed day n).mp h), early, le_trans late later⟩
  | expire day used =>
    obtain ⟨first, one, early, late⟩ := reached
    exact ⟨(placed day 0).mpr first, one, early, le_trans late later⟩
  | delete =>
    obtain ⟨day, n, place, beyond⟩ := reached
    exact ⟨day, n, (placed day n).mpr place, beyond⟩
  | done allowed reason =>
    cases allowed with
    | true =>
      obtain ⟨why, day, n, place, inside⟩ := reached
      exact ⟨why, day, n, (placed day n).mpr place, inside⟩
    | false =>
      rcases reached with ⟨why, unplaced⟩ | ⟨why, day, n, place, beyond⟩
      · exact Or.inl ⟨why, fun day n h => unplaced day n ((placed day n).mp h)⟩
      · exact Or.inr ⟨why, day, n, (placed day n).mpr place, beyond⟩

theorem calls_goto (x : Budget) (i j : Nat) (c : Claim) (pc : ClaimPc) :
    (x.goto i c pc).calls j = if j = i then some { c with pc := pc } else x.calls j := by
  unfold goto
  exact Function.update_apply _ _ _ _

/-- The call that moved, or another one. -/
theorem goto_cases {j : Nat} {d : Claim} {pc : ClaimPc}
    (running : (x.goto i c pc).calls j = some d) :
    (j = i ∧ d = { c with pc := pc }) ∨ (j ≠ i ∧ x.calls j = some d) := by
  rw [calls_goto] at running
  split at running
  · rename_i same
    exact Or.inl ⟨same, (Option.some.inj running).symm⟩
  · rename_i other
    exact Or.inr ⟨other, running⟩

/-- A step of call `i` that leaves the count alone. -/
theorem Sound.move (sound : x.Sound settings) (found : x.calls i = some c)
    {ran : Uuid → Option (Expiring Nat)} {daily : ℤ → Option Counter} {pc : ClaimPc}
    (reached : x.Reached settings i c.startedAt pc)
    (counter : ∀ day, match daily day with
      | none => (x.counted day).length = 0
      | some k =>
        k.used = (x.counted day).length ∧ ∀ t ∈ k.deadline, (day + 2) * daySeconds ≤ t)
    (own : ClaimPc.Holds pc → Owns settings { x with ran := ran } i c)
    (others : ∀ j d, j ≠ i → x.calls j = some d → Owns settings x j d →
      Owns settings { x with ran := ran } j d) :
    ({ x with ran := ran, daily := daily }.goto i c pc).Sound settings where
  started := by
    intro j d running
    rcases goto_cases running with ⟨_, rfl⟩ | ⟨_, old⟩
    · exact sound.started i c found
    · exact sound.started j d old
  reached := by
    intro j d running
    rcases goto_cases running with ⟨rfl, rfl⟩ | ⟨_, old⟩
    · exact reached.mono (le_refl _) (fun _ _ => Iff.rfl)
    · exact (sound.reached j d old).mono (le_refl _) (fun _ _ => Iff.rfl)
  known := by
    intro j day n place
    rw [calls_goto]
    split
    · rfl
    · exact sound.known j day n place
  once := sound.once
  counter := counter
  held := by
    intro j d running holds
    rcases goto_cases running with ⟨rfl, rfl⟩ | ⟨other, old⟩
    · exact own holds
    · exact others j d other old (sound.held j d old holds)

theorem placed_append {day : ℤ} :
    ∀ {j day' n}, (Function.update x.counted day (x.counted day ++ [i]) day')[n]? = some j ↔
      x.Placed j day' n ∨ (day' = day ∧ n = (x.counted day).length ∧ j = i) := by
  intro j day' n
  unfold Placed
  by_cases same : day' = day
  · subst same
    rw [Function.update_self, List.getElem?_append]
    split
    · rename_i inside
      constructor
      · exact Or.inl
      · rintro (old | ⟨_, new, _⟩)
        · exact old
        · omega
    · rename_i outside
      rw [List.getElem?_eq_none (not_lt.mp outside)]
      by_cases last : n = (x.counted day').length
      · subst last
        simp [eq_comm]
      · have beyond : n - (x.counted day').length ≠ 0 := by omega
        simp [last, beyond]
  · rw [Function.update_of_ne same]
    simp [same]

theorem perHourSeconds_le (settings : AgentSettings) : settings.perHourSeconds ≤ 3600 :=
  max_le (by decide) (Nat.div_le_self _ _)

/-- No counter expires while a call of its day is in time. -/
theorem Sound.counter_live (sound : x.Sound settings) {day : ℤ} {startedAt : ℚ}
    (early : startedAt < (day + 1) * daySeconds)
    (within : x.clock < startedAt + settings.perHourSeconds) :
    Counter.live x.clock (x.daily day) = x.daily day := by
  have counter := sound.counter day
  cases stored : x.daily day with
  | none => rfl
  | some k =>
    rw [stored] at counter
    have hour : (settings.perHourSeconds : ℚ) ≤ 3600 := by
      exact_mod_cast perHourSeconds_le settings
    have seconds : (daySeconds : ℚ) = 86400 := by norm_num [daySeconds]
    refine if_neg (fun expired => ?_)
    obtain ⟨t, set, beyond⟩ := expired
    have later := counter.2 t set
    rw [seconds] at later early
    linarith

/-- INCR gives out the next place of the day. -/
theorem Sound.incr_place (sound : x.Sound settings) {day : ℤ}
    (live : Counter.live x.clock (x.daily day) = x.daily day) :
    (Trigger.incr x.clock (x.daily day)).used = (x.counted day).length + 1 ∧
      ∀ t ∈ (Trigger.incr x.clock (x.daily day)).deadline, (day + 2) * daySeconds ≤ t := by
  have counter := sound.counter day
  unfold Trigger.incr
  rw [live]
  cases stored : x.daily day with
  | none =>
    rw [stored] at counter
    exact ⟨by rw [counter], fun t unset => by cases unset⟩
  | some k =>
    rw [stored] at counter
    exact ⟨congrArg (fun k => k + 1) counter.1, counter.2⟩

theorem counts_reached {day : ℤ} {n : Nat} {startedAt : ℚ} (place : x.Placed i day n) :
    x.Reached settings i startedAt (counts settings (n + 1)) := by
  unfold counts
  by_cases beyond : settings.agentMaxRunsPerDay < n + 1
  · rw [if_pos beyond]
    exact ⟨day, n, place, Nat.le_of_lt_succ beyond⟩
  · rw [if_neg beyond]
    exact ⟨rfl, day, n, place, by omega⟩

/-- The INCR of a call that won its key. -/
theorem Sound.count (sound : x.Sound settings) (found : x.calls i = some c) {day : ℤ}
    (at_incr : c.pc = .incr day) (within : x.clock < c.startedAt + settings.perHourSeconds)
    (next : stepNext settings i c x = some y) : y.Sound settings := by
  have reached := sound.reached i c found
  rw [at_incr] at reached
  obtain ⟨unplaced, early, late⟩ := reached
  obtain ⟨used, deadline⟩ := sound.incr_place (sound.counter_live early within)
  have owns := sound.held i c found (by rw [at_incr]; trivial)
  obtain ⟨pc, rfl, arrived⟩ : ∃ pc, y = { x with
      daily := Function.update x.daily day (some (Trigger.incr x.clock (x.daily day)))
      counted := Function.update x.counted day (x.counted day ++ [i]) }.goto i c pc ∧
      ((pc = .expire day 1 ∧ (x.counted day).length = 0) ∨
        pc = counts settings ((x.counted day).length + 1)) := by
    unfold stepNext at next
    simp only [at_incr, used] at next
    split at next
    · rename_i first
      cases next
      exact ⟨_, rfl, Or.inl ⟨by rw [first], by omega⟩⟩
    · cases next
      exact ⟨_, rfl, Or.inr rfl⟩
  have mine : Placed ({ x with
      daily := Function.update x.daily day (some (Trigger.incr x.clock (x.daily day)))
      counted := Function.update x.counted day (x.counted day ++ [i]) }.goto i c pc) i day
        (x.counted day).length := placed_append.mpr (Or.inr ⟨rfl, rfl, rfl⟩)
  refine
    { started := ?started, reached := ?reached, known := ?known, once := ?once,
      counter := ?counter, held := ?held }
  case started =>
    intro j d running
    rcases goto_cases running with ⟨_, rfl⟩ | ⟨_, old⟩
    · exact sound.started i c found
    · exact sound.started j d old
  case reached =>
    intro j d running
    rcases goto_cases running with ⟨rfl, rfl⟩ | ⟨other, old⟩
    · rcases arrived with ⟨rfl, empty⟩ | rfl
      · rw [empty] at mine
        exact ⟨mine, rfl, early, late⟩
      · exact counts_reached mine
    · refine (sound.reached j d old).mono (le_refl x.clock) (fun day' n => ?_)
      exact placed_append.trans
        ⟨fun place => place.resolve_right (fun new => other new.2.2), Or.inl⟩
  case known =>
    intro j day' n place
    rw [calls_goto]
    rcases placed_append.mp place with old | ⟨_, _, same⟩
    · split
      · rfl
      · exact sound.known j day' n old
    · rw [if_pos same]
      rfl
  case once =>
    intro j day₁ n₁ day₂ n₂ first second
    rcases placed_append.mp first with old | ⟨rfl, rfl, rfl⟩
    · rcases placed_append.mp second with old' | ⟨rfl, rfl, rfl⟩
      · exact sound.once j day₁ n₁ day₂ n₂ old old'
      · exact absurd old (unplaced _ _)
    · rcases placed_append.mp second with old' | ⟨rfl, rfl, _⟩
      · exact absurd old' (unplaced _ _)
      · exact ⟨rfl, rfl⟩
  case counter =>
    intro day'
    show match Function.update x.daily day (some (Trigger.incr x.clock (x.daily day))) day' with
      | none => (Function.update x.counted day (x.counted day ++ [i]) day').length = 0
      | some k => k.used = (Function.update x.counted day (x.counted day ++ [i]) day').length ∧
          ∀ t ∈ k.deadline, (day' + 2) * daySeconds ≤ t
    by_cases same : day' = day
    · subst same
      rw [Function.update_self, Function.update_self, List.length_append]
      exact ⟨used, deadline⟩
    · rw [Function.update_of_ne same, Function.update_of_ne same]
      exact sound.counter day'
  case held =>
    intro j d running holds
    rcases goto_cases running with ⟨rfl, rfl⟩ | ⟨_, old⟩
    · exact owns
    · exact sound.held j d old holds

theorem dayOf_bounds (clock : ℚ) :
    (dayOf clock : ℚ) * daySeconds ≤ clock ∧
    clock < ((dayOf clock : ℚ) + 1) * daySeconds := by
  have positive : (0 : ℚ) < daySeconds := by norm_num [daySeconds]
  exact ⟨(le_div_iff₀ positive).mp (Int.floor_le _),
    (div_lt_iff₀ positive).mp (Int.lt_floor_add_one _)⟩

/-- The key goes to a call that found it gone. -/
theorem Sound.win (sound : x.Sound settings) (found : x.calls i = some c) (at_set : c.pc = .setNx)
    (gone : Expiring.liveBefore x.clock (x.ran c.endpointId) = none) :
    ({ x with
      ran := Function.update x.ran c.endpointId
        (some ⟨i, x.clock + settings.perHourSeconds⟩) }.goto i c .readDay).Sound settings := by
  have unplaced := sound.reached i c found
  rw [at_set] at unplaced
  refine sound.move found unplaced sound.counter (fun _ => ?_) (fun j d other running owns => ?_)
  · refine Or.inr ⟨_, Function.update_self _ _ _, ?_⟩
    have started := sound.started i c found
    linarith
  · rcases owns with beyond | ⟨deadline, key, lives⟩
    · exact Or.inl beyond
    · by_cases same : d.endpointId = c.endpointId
      · rw [same] at key
        rw [key] at gone
        exact Or.inl (le_trans lives (Expiring.liveBefore_eq_none.mp gone))
      · exact Or.inr ⟨deadline, (Function.update_of_ne same _ _).trans key, lives⟩

/-- A call in time deletes its own key. -/
theorem Sound.owns (sound : x.Sound settings) (found : x.calls i = some c)
    (holds : ClaimPc.Holds c.pc) (within : x.clock < c.startedAt + settings.perHourSeconds) :
    ∃ deadline, x.ran c.endpointId = some ⟨i, deadline⟩ ∧ x.clock < deadline := by
  rcases sound.held i c found holds with beyond | ⟨deadline, key, lives⟩
  · exact absurd within (not_lt.mpr beyond)
  · exact ⟨deadline, key, lt_of_lt_of_le within lives⟩

theorem Sound.giveBack (sound : x.Sound settings) (found : x.calls i = some c)
    (at_delete : c.pc = .delete) (within : x.clock < c.startedAt + settings.perHourSeconds) :
    ({ x with ran := Function.update x.ran c.endpointId none }.goto i c
      (.done false (some "daily_budget_exhausted"))).Sound settings := by
  have reached := sound.reached i c found
  rw [at_delete] at reached
  obtain ⟨_, mine, _⟩ := sound.owns found (by rw [at_delete]; trivial) within
  refine sound.move found (Or.inr ⟨rfl, reached⟩) sound.counter (fun holds => holds.elim)
    (fun j d other running owns => ?_)
  rcases owns with beyond | ⟨deadline, key, lives⟩
  · exact Or.inl beyond
  · by_cases same : d.endpointId = c.endpointId
    · rw [same, mine] at key
      exact absurd (Expiring.mk.inj (Option.some.inj key)).1.symm other
    · exact Or.inr ⟨deadline, (Function.update_of_ne same _ _).trans key, lives⟩

theorem Sound.setExpiry (sound : x.Sound settings) (found : x.calls i = some c) {day : ℤ}
    {used : Nat} (at_expire : c.pc = .expire day used)
    (within : x.clock < c.startedAt + settings.perHourSeconds) :
    ({ x with
      daily := Function.update x.daily day
        (Trigger.expire x.clock (daySeconds * 2) (x.daily day)) }.goto i c
      (counts settings used)).Sound settings := by
  have reached := sound.reached i c found
  rw [at_expire] at reached
  obtain ⟨place, rfl, early, late⟩ := reached
  have owns := sound.held i c found (by rw [at_expire]; trivial)
  refine sound.move found (counts_reached place) (fun day' => ?_) (fun _ => owns)
    (fun j d _ _ owns => owns)
  by_cases same : day' = day
  · subst same
    rw [Function.update_self, Trigger.expire, sound.counter_live early within]
    have counter := sound.counter day'
    cases stored : x.daily day' with
    | none =>
      rw [stored] at counter
      exact counter
    | some k =>
      rw [stored] at counter
      refine ⟨counter.1, fun t set => ?_⟩
      cases set
      push_cast
      linarith
  · rw [Function.update_of_ne same]
    exact sound.counter day'

/-- One command of a call in time. -/
theorem Sound.next (sound : x.Sound settings) (found : x.calls i = some c)
    (within : x.clock < c.startedAt + settings.perHourSeconds)
    (next : stepNext settings i c x = some y) : y.Sound settings := by
  cases at_pc : c.pc with
  | setNx =>
    have unplaced := sound.reached i c found
    rw [at_pc] at unplaced
    unfold stepNext Trigger.setNx at next
    simp only [at_pc] at next
    cases live : Expiring.liveBefore x.clock (x.ran c.endpointId) with
    | none =>
      rw [live] at next
      cases next
      exact sound.win found at_pc live
    | some call =>
      rw [live] at next
      cases next
      exact sound.move found (Or.inl ⟨rfl, unplaced⟩) sound.counter (fun holds => holds.elim)
        (fun _ _ _ _ owns => owns)
  | readDay =>
    have unplaced := sound.reached i c found
    have owns := sound.held i c found (by rw [at_pc]; trivial)
    rw [at_pc] at unplaced
    unfold stepNext at next
    simp only [at_pc] at next
    cases next
    obtain ⟨late, early⟩ := dayOf_bounds x.clock
    exact sound.move found ⟨unplaced, lt_of_le_of_lt (sound.started i c found) early, late⟩
      sound.counter (fun _ => owns) (fun _ _ _ _ owns => owns)
  | incr day => exact sound.count found at_pc within next
  | expire day used =>
    unfold stepNext at next
    simp only [at_pc] at next
    cases next
    exact sound.setExpiry found at_pc within
  | delete =>
    unfold stepNext at next
    simp only [at_pc] at next
    cases next
    exact sound.giveBack found at_pc within
  | done allowed reason =>
    unfold stepNext at next
    simp only [at_pc] at next
    cases next

theorem Sound.step (sound : x.Sound settings) (within : Within settings x l)
    (next : step settings l x = some y) : y.Sound settings := by
  cases l with
  | tick time =>
    simp only [Budget.step] at next
    split at next
    · rename_i later
      cases next
      refine ⟨fun i c running => le_trans (sound.started i c running) later,
        fun i c running => ?_,
        sound.known, sound.once, sound.counter, fun i c running holds => ?_⟩
      · exact (sound.reached i c running).mono later (fun _ _ => Iff.rfl)
      · exact (sound.held i c running holds).imp (fun beyond => le_trans beyond later) id
    · cases next
  | call i endpointId =>
    simp only [Budget.step] at next
    split at next
    · cases next
    · rename_i fresh
      cases next
      have unplaced : ∀ day n, ¬ x.Placed i day n := by
        intro day n place
        have known := sound.known i day n place
        rw [fresh] at known
        cases known
      refine
        { started := ?started, reached := ?reached, known := ?known, once := sound.once,
          counter := sound.counter, held := ?held }
      case started =>
        intro j d running
        rcases goto_cases running with ⟨_, rfl⟩ | ⟨_, old⟩
        · exact le_refl _
        · exact sound.started j d old
      case reached =>
        intro j d running
        rcases goto_cases running with ⟨rfl, rfl⟩ | ⟨_, old⟩
        · exact unplaced
        · exact (sound.reached j d old).mono (le_refl x.clock) (fun _ _ => Iff.rfl)
      case known =>
        intro j day n place
        rw [calls_goto]
        split
        · rfl
        · exact sound.known j day n place
      case held =>
        intro j d running holds
        rcases goto_cases running with ⟨_, rfl⟩ | ⟨_, old⟩
        · exact holds.elim
        · exact sound.held j d old holds
  | next i =>
    simp only [Budget.step] at next
    split at next
    · cases next
    · rename_i c found
      exact sound.next found (within c found) next

theorem sound_initial (settings : AgentSettings) : Budget.initial.Sound settings where
  started := fun _ _ running => by cases running
  reached := fun _ _ running => by cases running
  known := fun _ _ _ place => by cases place
  once := fun _ _ _ _ _ place => by cases place
  counter := fun _ => rfl
  held := fun _ _ running => by cases running

/-! What a call is answered -/

def answer (x : Budget) (i : Nat) : Option (Bool × Option String) :=
  match x.calls i with
  | some ⟨_, _, .done allowed reason⟩ => some (allowed, reason)
  | _ => none

def finished (x : Budget) (i : Nat) : Bool := (x.answer i).isSome

def allowed (x : Budget) (i : Nat) : Bool := x.answer i = some (true, none)

theorem Sound.answer_reached (sound : x.Sound settings) {answered : Bool × Option String}
    (answers : x.answer i = some answered) :
    ∃ startedAt, x.Reached settings i startedAt (.done answered.1 answered.2) := by
  unfold answer at answers
  split at answers
  · rename_i endpointId startedAt allowed reason found
    cases answers
    exact ⟨startedAt, sound.reached i _ found⟩
  · cases answers

/-- Who has a place of the day is allowed exactly if it is one of the first. -/
theorem Sound.allowed_iff (sound : x.Sound settings) {day : ℤ} {n : Nat}
    (place : x.Placed i day n) (finished : x.finished i = true) :
    x.allowed i = true ↔ n < settings.agentMaxRunsPerDay := by
  obtain ⟨⟨allowed, reason⟩, answers⟩ := Option.isSome_iff_exists.mp finished
  obtain ⟨startedAt, reached⟩ := sound.answer_reached answers
  have decided : x.allowed i = true ↔ (allowed, reason) = (true, none) := by
    rw [Budget.allowed, answers, decide_eq_true_iff, Option.some.injEq]
  rw [decided]
  cases allowed with
  | true =>
    obtain ⟨rfl, day', n', place', inside⟩ := reached
    rw [(sound.once i day n day' n' place place').2]
    exact ⟨fun _ => inside, fun _ => rfl⟩
  | false =>
    have beyond : settings.agentMaxRunsPerDay ≤ n := by
      rcases reached with ⟨_, unplaced⟩ | ⟨_, day', n', place', beyond⟩
      · exact absurd place (unplaced day n)
      · rwa [(sound.once i day n day' n' place place').2]
    constructor
    · intro same
      cases same
    · intro inside
      omega

theorem filter_eq_take {l : List Nat} {p : Nat → Bool} {k : Nat}
    (first : ∀ n i, l[n]? = some i → (p i = true ↔ n < k)) : l.filter p = l.take k := by
  induction l generalizing k with
  | nil => simp
  | cons a l ih =>
    have head := first 0 a rfl
    cases k with
    | zero =>
      have rest : l.filter p = l.take 0 := ih (fun n i place => by
        have later := first (n + 1) i place
        constructor
        · intro holds
          exact absurd (later.mp holds) (Nat.not_lt_zero _)
        · intro none_below
          exact absurd none_below (Nat.not_lt_zero _))
      rw [List.filter_cons_of_neg (fun holds => absurd (head.mp holds) (lt_irrefl _)), rest,
        List.take_zero, List.take_zero]
    | succ k =>
      have rest : l.filter p = l.take k := ih (fun n i place =>
        (first (n + 1) i place).trans Nat.succ_lt_succ_iff)
      rw [List.filter_cons_of_pos (head.mpr (Nat.succ_pos k)), rest, List.take_succ_cons]

/-- The daily budget is exact: once the calls that are counted on a day are done,
those allowed are the first of them up to the cap, and each of them was
answered so as soon as it was done. A refused call deletes the key that it set
itself, and leaves it absent. -/
theorem daily_budget_exact (run : Run (step settings) (Within settings) initial x) :
    (∀ day, (∀ i ∈ x.counted day, x.finished i = true) →
      (x.counted day).filter x.allowed =
        (x.counted day).take (min settings.agentMaxRunsPerDay (x.counted day).length)) ∧
    (∀ day n i, x.Placed i day n → x.finished i = true →
      (x.allowed i = true ↔ n < settings.agentMaxRunsPerDay)) ∧
    (∀ i c y, x.calls i = some c → c.pc = .delete → Within settings x (.next i) →
      step settings (.next i) x = some y →
        (∃ deadline, x.ran c.endpointId = some ⟨i, deadline⟩ ∧ x.clock < deadline) ∧
        y.ran c.endpointId = none ∧
          y.answer i = some (false, some "daily_budget_exhausted")) := by
  have sound : x.Sound settings := run.invariant (I := Sound settings) (sound_initial settings)
    (fun sound within next => sound.step within next)
  refine ⟨fun day finished => ?_, fun day n i place finished => sound.allowed_iff place finished,
    fun i c y found at_delete within next => ?_⟩
  · rw [← List.take_eq_take_min]
    exact filter_eq_take (fun n i place =>
      sound.allowed_iff place (finished i (List.mem_of_getElem? place)))
  · refine ⟨sound.owns found (by rw [at_delete]; trivial) (within c found), ?_⟩
    simp only [step, found, stepNext, at_delete] at next
    cases next
    refine ⟨Function.update_self _ _ _, ?_⟩
    simp [answer, goto]

/-- A cap of one, two calls for two endpoints: the second to start counts first. -/
theorem daily_budget_exact_two : ∃ x : Budget,
    Run (step { agentMaxRunsPerDay := 1 }) (Within { agentMaxRunsPerDay := 1 }) initial x ∧
      x.counted 0 = [1, 0] ∧ (x.counted 0).filter x.allowed = [1] := by
  have evaluates : (exec (step { agentMaxRunsPerDay := 1 })
      (fun x l => decide (Within { agentMaxRunsPerDay := 1 } x l))
      [.call 0 1, .call 1 2, .next 0, .next 1, .next 0, .next 1, .next 1, .tick 1, .next 0, .next 1,
        .next 0] initial).elim false
      (fun x => decide (x.counted 0 = [1, 0] ∧ ∀ i ∈ x.counted 0, x.finished i = true)) =
        true := by
    decide +kernel
  obtain ⟨x, executed, passes⟩ := reached evaluates
  obtain ⟨counted, finished⟩ := of_decide_eq_true passes
  have run := run_of_exec (fun _ _ => of_decide_eq_true) executed
  refine ⟨x, run, counted, ?_⟩
  rw [(daily_budget_exact run).1 0 finished, counted]
  rfl

end Relay.Agent.Trigger.Budget
