import Mathlib.Data.List.Basic
import Mathlib.Tactic.Common

/-!
# Maximal runs of a list

What a pattern matcher finds that looks for as many elements of a class as
possible, one match after the other: the longest stretches of the class. A list
that is joined from such stretches by a separator comes apart at it again.
-/

universe u

namespace Runs

variable {A : Type u}

/-- The runs of a list that goes on after `run`. -/
def runsFrom (p : A → Bool) : List A → List A → List (List A)
  | run, [] => if run.isEmpty then [] else [run]
  | run, a :: rest =>
    if p a then runsFrom p (run ++ [a]) rest
    else if run.isEmpty then runsFrom p [] rest
    else run :: runsFrom p [] rest

def runs (p : A → Bool) (l : List A) : List (List A) := runsFrom p [] l

variable {p : A → Bool} {sep : A} {part run : List A} {parts : List (List A)}

theorem runsFrom_append (inside : ∀ a ∈ part, p a = true) (run rest : List A) :
    runsFrom p run (part ++ rest) = runsFrom p (run ++ part) rest := by
  induction part generalizing run with
  | nil => rw [List.nil_append, List.append_nil]
  | cons a more ih =>
    rw [List.cons_append, runsFrom, if_pos (inside a List.mem_cons_self),
      ih (fun b h => inside b (List.mem_cons_of_mem a h)), List.append_assoc, List.singleton_append]

theorem runsFrom_nil (nonempty : run ≠ []) : runsFrom p run [] = [run] := by
  rw [runsFrom, if_neg (by rwa [List.isEmpty_iff])]

/-- A separator ends the run. -/
theorem runsFrom_sep (outside : p sep = false) (nonempty : run ≠ []) (rest : List A) :
    runsFrom p run (sep :: rest) = run :: runs p rest := by
  rw [runsFrom, if_neg (by rw [outside]; exact Bool.false_ne_true),
    if_neg (by rwa [List.isEmpty_iff]), runs]

/-- A list is cut at its first separator in one way. -/
theorem append_sep_inj {l l' more more' : List A} (plain : sep ∉ l) (plain' : sep ∉ l')
    (same : l ++ sep :: more = l' ++ sep :: more') : l = l' ∧ more = more' := by
  induction l generalizing l' with
  | nil =>
    cases l' with
    | nil => exact ⟨rfl, (List.cons.inj same).2⟩
    | cons a rest => exact absurd ((List.cons.inj same).1 ▸ List.mem_cons_self) plain'
  | cons a rest ih =>
    cases l' with
    | nil => exact absurd ((List.cons.inj same).1 ▸ List.mem_cons_self) plain
    | cons a' rest' =>
      obtain ⟨first, others⟩ := List.cons.inj same
      obtain ⟨rests, ends⟩ := ih (fun h => plain (List.mem_cons_of_mem a h))
        (fun h => plain' (List.mem_cons_of_mem a' h)) others
      exact ⟨by rw [first, rests], ends⟩

/-- Joined parts come apart again. -/
theorem runs_intercalate (outside : p sep = false)
    (inside : ∀ part ∈ parts, part ≠ [] ∧ ∀ a ∈ part, p a = true) :
    runs p ([sep].intercalate parts) = parts := by
  induction parts with
  | nil => rfl
  | cons part rest ih =>
    obtain ⟨nonempty, all⟩ := inside part List.mem_cons_self
    have others := fun part h => inside part (List.mem_cons_of_mem _ h)
    cases rest with
    | nil =>
      have whole := runsFrom_append all [] []
      rw [List.append_nil, List.nil_append, runsFrom_nil nonempty] at whole
      rw [List.intercalate_singleton]
      exact whole
    | cons next rest =>
      rw [List.intercalate_cons_cons, runs, List.append_assoc, runsFrom_append all, List.nil_append,
        List.singleton_append, runsFrom_sep outside nonempty, ih others]

end Runs
