import Mathlib.Data.List.Induction
import Mathlib.Logic.Function.Basic

/-!
# Tables in which the last writer wins

Every entry of a log is put under all of its keys. Under a key the table then holds
the last entry of the log that has it.
-/

namespace Latest

variable {α κ : Type*} [DecidableEq κ] (keys : α → List κ)

/-- The entry, put under each of its keys. -/
def put (table : κ → Option α) (a : α) : κ → Option α :=
  (keys a).foldl (fun table k => Function.update table k (some a)) table

/-- The table after a log. -/
def fill (log : List α) : κ → Option α := log.foldl (put keys) (fun _ => none)

/-- The last entry with this key. -/
def latest (log : List α) (k : κ) : Option α := log.reverse.find? (fun a => k ∈ keys a)

variable {keys} {log : List α} {k : κ}

theorem put_apply (table : κ → Option α) (a : α) (k : κ) :
    put keys table a k = if k ∈ keys a then some a else table k := by
  unfold put
  generalize keys a = ks
  induction ks generalizing table with
  | nil => rfl
  | cons first rest ih =>
    rw [List.foldl_cons, ih]
    by_cases later : k ∈ rest
    · rw [if_pos later, if_pos (List.mem_cons_of_mem _ later)]
    · rw [if_neg later]
      by_cases own : k = first
      · rw [own, Function.update_self, if_pos List.mem_cons_self]
      · rw [Function.update_of_ne own, if_neg fun h => (List.mem_cons.mp h).elim own later]

theorem fill_append_singleton (log : List α) (a : α) :
    fill keys (log ++ [a]) = put keys (fill keys log) a :=
  List.foldl_append ..

theorem latest_append_singleton (log : List α) (a : α) (k : κ) :
    latest keys (log ++ [a]) k = if k ∈ keys a then some a else latest keys log k := by
  unfold latest
  rw [List.reverse_append, List.reverse_singleton, List.singleton_append, List.find?_cons]
  by_cases own : k ∈ keys a
  · rw [if_pos own, decide_eq_true own]
  · rw [if_neg own, decide_eq_false own]

theorem fill_apply (log : List α) (k : κ) : fill keys log k = latest keys log k := by
  induction log using List.reverseRecOn with
  | nil => rfl
  | append_singleton log a ih =>
    rw [fill_append_singleton, put_apply, latest_append_singleton, ih]

theorem latest_eq_none : latest keys log k = none ↔ ∀ a ∈ log, k ∉ keys a := by
  unfold latest
  simp [List.find?_eq_none]

/-- A key of some entry has a last one. -/
theorem exists_latest (keys : α → List κ) {a : α} (listed : a ∈ log) (own : k ∈ keys a) :
    ∃ last, latest keys log k = some last := by
  refine Option.ne_none_iff_exists'.mp fun none => ?_
  exact latest_eq_none.mp none a listed own

end Latest
