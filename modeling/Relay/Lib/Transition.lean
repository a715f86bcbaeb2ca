import Mathlib.Logic.Function.Basic
import Mathlib.Tactic.Common

/-!
# Labelled steps, guarded runs and their invariants

A system is a partial function from labels and states to states; all choice is
in the label. A run is a finite sequence of steps each of which a guard admits,
judged from the state before the step and the label. Environment assumptions
of a result (who may crash, which clock is read) are guards of its runs.
-/

namespace Transition

universe u v

variable {S : Type u} {L : Type v}

/-- Finite runs from a fixed first state, every step admitted by the guard. -/
inductive Run (step : L → S → Option S) (guard : S → L → Prop) (s : S) : S → Prop where
  | refl : Run step guard s s
  | tail {t u : S} {l : L} : Run step guard s t → guard t l → step l t = some u →
      Run step guard s u

namespace Run

variable {step : L → S → Option S} {guard : S → L → Prop} {s t u : S}

theorem trans (first : Run step guard s t) (second : Run step guard t u) :
    Run step guard s u := by
  induction second with
  | refl => exact first
  | tail _ admitted next ih => exact .tail ih admitted next

/-- What admitted steps preserve holds at the end of every run. -/
theorem invariant {I : S → Prop} (run : Run step guard s t) (start : I s)
    (preserved : ∀ {s l t}, I s → guard s l → step l s = some t → I t) : I t := by
  induction run with
  | refl => exact start
  | tail _ admitted next ih => exact preserved ih admitted next

/-- A second invariant may use a first one that needs no help. -/
theorem invariant_under {I J : S → Prop} (run : Run step guard s t) (outer : I s) (start : J s)
    (outer_preserved : ∀ {s l t}, I s → guard s l → step l s = some t → I t)
    (preserved : ∀ {s l t}, I s → J s → guard s l → step l s = some t → J t) : J t := by
  have both : I t ∧ J t := run.invariant (I := fun s => I s ∧ J s) ⟨outer, start⟩
    (fun held admitted next =>
      ⟨outer_preserved held.1 admitted next, preserved held.1 held.2 admitted next⟩)
  exact both.2

end Run

/-- Executes a list of labels; `none` when a step is disabled or not admitted. -/
def exec (step : L → S → Option S) (admits : S → L → Bool) : List L → S → Option S
  | [], s => some s
  | l :: rest, s =>
    if admits s l then
      match step l s with
      | none => none
      | some t => exec step admits rest t
    else none

/-- A successful execution is a run. The check needs to be sound only under an
invariant that the executed labels keep. -/
theorem exec_run {step : L → S → Option S} {admits : S → L → Bool}
    {guard : S → L → Prop} {I : S → Prop} {labels : List L} {s t : S} (start : I s)
    (kept : ∀ l ∈ labels, ∀ {s t}, I s → step l s = some t → I t)
    (sound : ∀ l ∈ labels, ∀ {s}, I s → admits s l = true → guard s l)
    (done : exec step admits labels s = some t) : Run step guard s t ∧ I t := by
  induction labels generalizing s with
  | nil =>
    have same : s = t := Option.some.inj done
    exact ⟨same ▸ .refl, same ▸ start⟩
  | cons l rest ih =>
    simp only [exec] at done
    split at done
    · rename_i admitted
      split at done
      · cases done
      · rename_i next
        have first := sound l List.mem_cons_self start admitted
        have later := ih (kept l List.mem_cons_self start next)
          (fun l' h => kept l' (List.mem_cons_of_mem _ h))
          (fun l' h => sound l' (List.mem_cons_of_mem _ h)) done
        exact ⟨(Run.tail .refl first next).trans later.1, later.2⟩
    · cases done

/-- The same where the check is sound in every state. -/
theorem run_of_exec {step : L → S → Option S} {admits : S → L → Bool}
    {guard : S → L → Prop}
    {labels : List L} {s t : S} (sound : ∀ s l, admits s l = true → guard s l)
    (done : exec step admits labels s = some t) : Run step guard s t := by
  have run := exec_run (I := fun _ => True) trivial (fun _ _ _ _ _ _ => trivial)
    (fun l _ s _ admitted => sound s l admitted) done
  exact run.1

/-- An evaluated test of the last state. -/
theorem reached {o : Option S} {test : S → Bool} (passes : o.elim false test = true) :
    ∃ s, o = some s ∧ test s = true := by
  cases o with
  | none => cases passes
  | some s => exact ⟨s, rfl, passes⟩

/-! Deterministic systems that run on their own -/

/-- At most `n` steps, or until there is none. -/
def drive (next : S → Option S) : Nat → S → S
  | 0, s => s
  | n + 1, s =>
    match next s with
    | none => s
    | some t => drive next n t

theorem drive_stop {next : S → Option S} {s : S} (stops : next s = none) (n : Nat) :
    drive next n s = s := by
  cases n with
  | zero => rfl
  | succ n => simp only [drive, stops]

/-- The state in which the steps from `s` end. -/
structure Ends (next : S → Option S) (s t : S) : Prop where
  reached : ∃ n, drive next n s = t
  stops : next t = none

namespace Ends

variable {next : S → Option S} {s t u : S}

theorem here (stops : next s = none) : Ends next s s := ⟨⟨0, rfl⟩, stops⟩

theorem step (first : next s = some t) (rest : Ends next t u) : Ends next s u := by
  obtain ⟨n, reached⟩ := rest.reached
  refine ⟨⟨n + 1, ?_⟩, rest.stops⟩
  simp only [drive, first]
  exact reached

/-- A run that ends has one end. -/
theorem unique (first : Ends next s t) (second : Ends next s u) : t = u := by
  obtain ⟨n, hn⟩ := first.reached
  obtain ⟨m, hm⟩ := second.reached
  induction n generalizing s m with
  | zero =>
    cases hn
    exact (drive_stop first.stops m).symm.trans hm
  | succ n ih =>
    cases move : next s with
    | none => exact (drive_stop move (n + 1) ▸ hn).symm.trans (drive_stop move m ▸ hm)
    | some v =>
      simp only [drive, move] at hn
      cases m with
      | zero =>
        cases hm
        exact nomatch move.symm.trans second.stops
      | succ m =>
        simp only [drive, move] at hm
        exact ih ⟨⟨n, hn⟩, first.stops⟩ ⟨⟨m, hm⟩, second.stops⟩ hn m hm

end Ends

/-- In every state that the steps from `s` reach. -/
def Always (next : S → Option S) (P : S → Prop) (s : S) : Prop := ∀ n, P (drive next n s)

/-- The steps from `s` lead to `t`, and `P` holds in every state before it. -/
inductive Leads (next : S → Option S) (P : S → Prop) : S → S → Prop where
  | here (s : S) : Leads next P s s
  | step {s t u : S} : next s = some t → P s → Leads next P t u → Leads next P s u

section

variable {next : S → Option S} {P : S → Prop} {s t u : S}

theorem always_stop (stops : next s = none) : Always next P s ↔ P s := by
  constructor
  · exact fun always => always 0
  · intro now n
    rw [drive_stop stops]
    exact now

theorem always_step (first : next s = some t) : Always next P s ↔ P s ∧ Always next P t := by
  constructor
  · intro always
    refine ⟨always 0, fun n => ?_⟩
    have later := always (n + 1)
    simpa only [drive, first] using later
  · rintro ⟨now, later⟩ n
    cases n with
    | zero => exact now
    | succ n => simpa only [drive, first] using later n

theorem always_of_invariant {I : S → Prop} (first : I s)
    (preserved : ∀ {s t}, I s → next s = some t → I t) (holds : ∀ {s}, I s → P s) :
    Always next P s := by
  intro n
  induction n generalizing s with
  | zero => exact holds first
  | succ n ih =>
    cases move : next s with
    | none => simpa only [drive, move] using holds first
    | some t => simpa only [drive, move] using ih (preserved first move)

theorem Leads.ends (path : Leads next P s t) (rest : Ends next t u) : Ends next s u := by
  induction path with
  | here => exact rest
  | step first _ _ ih => exact .step first (ih rest)

theorem Leads.always (path : Leads next P s t) : Always next P s ↔ Always next P t := by
  induction path with
  | here => exact Iff.rfl
  | step first now _ ih => rw [always_step first, ih, and_iff_right now]

end

end Transition
