import Mathlib.Order.Defs.Unbundled
import Mathlib.Tactic.Common

/-!
# Frames of programs with effects

A program over a state that may raise. It stays within a relation when every run
of it, one that raises included, ends in a state that is related to the first.
For a preorder this is closed under sequencing and handlers. What a program may
raise is a predicate that its parts share; one that raises nothing returns.
-/

namespace Effects

universe u

variable {ε σ α β : Type u}

abbrev Program (ε σ α : Type u) := ExceptT ε (StateM σ) α

/-- The state in which the program ends, also when it raises. -/
def final (m : Program ε σ α) (s : σ) : σ := (m.run.run s).2

/-- What it returns or raises. -/
def outcome (m : Program ε σ α) (s : σ) : Except ε α := (m.run.run s).1

def Within (R : σ → σ → Prop) (m : Program ε σ α) : Prop := ∀ s, R s (final m s)

/-- Whatever it raises meets `P`. -/
def Raises (P : ε → Prop) (m : Program ε σ α) : Prop :=
  ∀ s e, outcome m s = .error e → P e

section Rules

variable {R : σ → σ → Prop} {m : Program ε σ α} {f : α → Program ε σ β}

theorem run_eq (m : Program ε σ α) (s : σ) : m.run.run s = (outcome m s, final m s) := rfl

theorem final_bind (m : Program ε σ α) (f : α → Program ε σ β) (s : σ) :
    final (m >>= f) s =
      match outcome m s with
      | .ok a => final (f a) (final m s)
      | .error _ => final m s := by
  change ((m >>= f).run.run s).2 = _
  rw [ExceptT.run_bind, StateT.run_bind, run_eq m s]
  cases outcome m s <;> rfl

theorem outcome_bind (m : Program ε σ α) (f : α → Program ε σ β) (s : σ) :
    outcome (m >>= f) s =
      match outcome m s with
      | .ok a => outcome (f a) (final m s)
      | .error e => .error e := by
  change ((m >>= f).run.run s).1 = _
  rw [ExceptT.run_bind, StateT.run_bind, run_eq m s]
  cases outcome m s <;> rfl

theorem final_get_bind (f : σ → Program ε σ β) (s : σ) :
    final (get >>= f) s = final (f s) s := rfl

theorem outcome_get_bind (f : σ → Program ε σ β) (s : σ) :
    outcome (get >>= f) s = outcome (f s) s := rfl

/-- A sequence that returns is two runs that do. -/
theorem bind_ok {m : Program ε σ α} {f : α → Program ε σ β} {s : σ} {b : β}
    (h : outcome (m >>= f) s = .ok b) : ∃ a, outcome m s = .ok a ∧
      outcome (f a) (final m s) = .ok b ∧ final (m >>= f) s = final (f a) (final m s) := by
  rw [outcome_bind] at h
  rw [final_bind]
  cases first : outcome m s with
  | error e =>
    rw [first] at h
    cases h
  | ok a =>
    rw [first] at h
    exact ⟨a, rfl, h, rfl⟩

theorem run_tryCatch (m : Program ε σ α) (handler : ε → Program ε σ α) (s : σ) :
    (tryCatch m handler).run.run s = (outcome m s).casesOn
      (fun e => (handler e).run.run (final m s)) (fun a => (.ok a, final m s)) := by
  change (m.run >>= fun res => _).run s = _
  rw [StateT.run_bind]
  change (match outcome m s with
    | .ok a => pure (.ok a)
    | .error e => (handler e).run : StateM σ _).run (final m s) = _
  cases outcome m s <;> rfl

theorem final_tryCatch (m : Program ε σ α) (handler : ε → Program ε σ α) (s : σ) :
    final (tryCatch m handler) s =
      match outcome m s with
      | .ok _ => final m s
      | .error e => final (handler e) (final m s) := by
  change ((tryCatch m handler).run.run s).2 = _
  rw [run_tryCatch]
  cases outcome m s <;> rfl

theorem outcome_tryCatch (m : Program ε σ α) (handler : ε → Program ε σ α) (s : σ) :
    outcome (tryCatch m handler) s =
      match outcome m s with
      | .ok a => .ok a
      | .error e => outcome (handler e) (final m s) := by
  change ((tryCatch m handler).run.run s).1 = _
  rw [run_tryCatch]
  cases outcome m s <;> rfl

theorem within_pure [Std.Refl R] (a : α) : Within R (pure a : Program ε σ α) :=
  fun s => Std.Refl.refl s

theorem within_throw [Std.Refl R] (e : ε) : Within R (throw e : Program ε σ α) :=
  fun s => Std.Refl.refl s

theorem within_get [Std.Refl R] : Within R (get : Program ε σ σ) := fun s => Std.Refl.refl s

theorem within_bind [IsTrans σ R] (first : Within R m) (rest : ∀ a, Within R (f a)) :
    Within R (m >>= f) := by
  intro s
  rw [final_bind]
  cases outcome m s with
  | error e => exact first s
  | ok a => exact IsTrans.trans _ _ _ (first s) (rest a (final m s))

theorem within_tryCatch [IsTrans σ R] {handler : ε → Program ε σ α} (first : Within R m)
    (rest : ∀ e, Within R (handler e)) : Within R (tryCatch m handler) := by
  intro s
  rw [final_tryCatch]
  cases outcome m s with
  | ok a => exact first s
  | error e => exact IsTrans.trans _ _ _ (first s) (rest e (final m s))

theorem Within.mono {R' : σ → σ → Prop} (within : Within R m)
    (weaker : ∀ s t, R s t → R' s t) : Within R' m := fun s => weaker s _ (within s)

variable {P : ε → Prop}

theorem raises_pure (a : α) : Raises P (pure a : Program ε σ α) :=
  fun _ _ raised => by cases raised

theorem raises_throw {e : ε} (holds : P e) : Raises P (throw e : Program ε σ α) :=
  fun _ _ raised => by
    cases raised
    exact holds

theorem raises_get : Raises P (get : Program ε σ σ) := fun _ _ raised => by cases raised

theorem raises_modify (g : σ → σ) : Raises P (modify g : Program ε σ PUnit) :=
  fun _ _ raised => by cases raised

theorem raises_bind (first : Raises P m) (rest : ∀ a, Raises P (f a)) : Raises P (m >>= f) := by
  intro s e raised
  rw [outcome_bind] at raised
  cases ended : outcome m s with
  | error e' =>
    rw [ended] at raised
    cases raised
    exact first s e ended
  | ok a =>
    rw [ended] at raised
    exact rest a _ e raised

theorem raises_tryCatch {Q : ε → Prop} {handler : ε → Program ε σ α} (first : Raises P m)
    (rest : ∀ e, P e → Raises Q (handler e)) : Raises Q (tryCatch m handler) := by
  intro s e raised
  rw [outcome_tryCatch] at raised
  cases ended : outcome m s with
  | ok a =>
    rw [ended] at raised
    cases raised
  | error e' =>
    rw [ended] at raised
    exact rest e' (first s e' ended) _ e raised

/-- A program that raises nothing returns. -/
theorem returns (never : Raises (fun _ => False) m) (s : σ) : ∃ a, outcome m s = .ok a := by
  cases ended : outcome m s with
  | error e => exact (never s e ended).elim
  | ok a => exact ⟨a, rfl⟩

theorem returns_bind {s : σ} (first : ∃ a, outcome m s = .ok a)
    (rest : ∀ a, Raises (fun _ => False) (f a)) : ∃ b, outcome (m >>= f) s = .ok b := by
  obtain ⟨a, ended⟩ := first
  rw [outcome_bind, ended]
  exact returns (rest a) _

end Rules

end Effects
