import Mathlib.Data.List.Nodup
import Mathlib.Tactic.Common

/-!
# Tables of rows with a primary key

A table is a list of rows in insertion order. `get` is a select by primary key
and `update` an `UPDATE ... WHERE key = k`. Updates are required to keep the
key of the row, which is all that the laws below need; distinctness of keys is
only needed where a select by another column must not see a row twice.
-/

namespace Table

universe u v

variable {R : Type u} {K : Type v} [DecidableEq K] (key : R → K)

def get (rows : List R) (k : K) : Option R := rows.find? (fun r => key r = k)

def update (rows : List R) (k : K) (f : R → R) : List R :=
  rows.map (fun r => if key r = k then f r else r)

variable {key} {rows : List R} {k k' : K} {f : R → R} {r : R}

theorem get_key (h : get key rows k = some r) : key r = k := by
  simpa using List.find?_some h

theorem get_mem (h : get key rows k = some r) : r ∈ rows := List.mem_of_find?_eq_some h

theorem get_eq_none : get key rows k = none ↔ k ∉ rows.map key := by
  simp [get, List.find?_eq_none]

theorem get_isSome_of_mem (h : r ∈ rows) : ∃ r', get key rows (key r) = some r' := by
  by_contra none_found
  have absent : get key rows (key r) = none := by
    cases found : get key rows (key r) with
    | none => rfl
    | some r' => exact absurd ⟨r', found⟩ none_found
  exact get_eq_none.mp absent (List.mem_map_of_mem h)

/-- With distinct keys a select by primary key finds every row of the table. -/
theorem get_of_mem (distinct : (rows.map key).Nodup) (h : r ∈ rows) :
    get key rows (key r) = some r := by
  have listed : ∃ r', get key rows (key r) = some r' := get_isSome_of_mem h
  obtain ⟨r', found⟩ := listed
  have same : r' = r := List.inj_on_of_nodup_map distinct (get_mem found) h (get_key found)
  exact same ▸ found

@[simp] theorem get_nil : get key [] k = none := rfl

theorem get_update_self (keeps : ∀ r, key (f r) = key r) :
    get key (update key rows k f) k = (get key rows k).map f := by
  induction rows with
  | nil => rfl
  | cons a rest ih =>
    by_cases h : key a = k
    · simp [get, update, h, keeps]
    · simpa [get, update, h] using ih

theorem get_update_ne (keeps : ∀ r, key (f r) = key r) (ne : k' ≠ k) :
    get key (update key rows k f) k' = get key rows k' := by
  induction rows with
  | nil => rfl
  | cons a rest ih =>
    by_cases h : key a = k
    · have ha : key a ≠ k' := fun e => ne (e.symm.trans h)
      simpa [get, update, h, keeps, ne.symm, ha] using ih
    · by_cases h' : key a = k'
      · simp [get, update, h', ne]
      · simpa [get, update, h, h'] using ih

/-- A select by primary key after an update, for every key at once. -/
theorem get_update (keeps : ∀ r, key (f r) = key r) :
    get key (update key rows k f) k' =
      if k' = k then (get key rows k').map f else get key rows k' := by
  by_cases h : k' = k
  · subst h
    simp [get_update_self keeps]
  · simp [get_update_ne keeps h, h]

theorem get_append (more : List R) :
    get key (rows ++ more) k = (get key rows k).or (get key more k) := by
  simp [get, List.find?_append]

/-- Appending rows never hides a row that a select already found. -/
theorem get_append_of_some (more : List R) (h : get key rows k = some r) :
    get key (rows ++ more) k = some r := by
  simp [get_append, h]

/-- A select from a projection of the rows that keeps the key. -/
theorem get_map {S : Type*} {project : R → S} {key' : S → K}
    (same : ∀ r, key' (project r) = key r) (rows : List R) :
    get key' (rows.map project) k = (get key rows k).map project := by
  simp only [get, List.find?_map]
  congr 2
  funext r
  simp [same]

@[simp] theorem keys_update (keeps : ∀ r, key (f r) = key r) :
    (update key rows k f).map key = rows.map key := by
  simp only [update, List.map_map]
  apply List.map_congr_left
  intro r _
  by_cases h : key r = k <;> simp [h, keeps]

theorem update_of_absent (absent : k ∉ rows.map key) : update key rows k f = rows := by
  unfold update
  refine (List.map_congr_left (fun r listed => ?_)).trans (List.map_id rows)
  have ne : key r ≠ k := fun same => absent (same ▸ List.mem_map_of_mem listed)
  exact if_neg ne

theorem mem_update (h : r ∈ update key rows k f) :
    (∃ a ∈ rows, key a = k ∧ r = f a) ∨ r ∈ rows := by
  obtain ⟨a, ha, rfl⟩ := List.mem_map.mp h
  by_cases hk : key a = k
  · exact Or.inl ⟨a, ha, hk, by simp [hk]⟩
  · exact Or.inr (by simpa [hk] using ha)

theorem exists_update {P : R → Prop} (keeps : ∀ r, P r → P (f r)) (h : ∃ r ∈ rows, P r) :
    ∃ r ∈ update key rows k f, P r := by
  obtain ⟨r, listed, holds⟩ := h
  refine ⟨_, List.mem_map_of_mem listed, ?_⟩
  split
  · exact keeps r holds
  · exact holds

/-! Views: the rows of a table that pass a test -/

section Views

variable {p q : R → Bool}

omit [DecidableEq K] in
/-- A select that implies the test sees the whole table through the view. -/
theorem filter_view (implies : ∀ r ∈ rows, q r = true → p r = true) :
    (rows.filter p).filter q = rows.filter q := by
  rw [List.filter_filter]
  refine List.filter_congr (fun r listed => ?_)
  cases passes : q r with
  | false => rfl
  | true => rw [implies r listed passes, Bool.and_true]

omit [DecidableEq K] in
theorem find_spec {P : R → Prop} [DecidablePred P]
    (found : rows.find? (fun r => P r) = some r) : r ∈ rows ∧ P r :=
  ⟨List.mem_of_find?_eq_some found, by simpa using List.find?_some found⟩

omit [DecidableEq K] in
theorem find_view (implies : ∀ r ∈ rows, q r = true → p r = true) :
    (rows.filter p).find? q = rows.find? q := by
  rw [← List.head?_filter, ← List.head?_filter, filter_view implies]

/-- With distinct keys a select by primary key and a test is one of the view. -/
theorem get_view (distinct : (rows.map key).Nodup) :
    (get key rows k).filter p = get key (rows.filter p) k := by
  have distinct' : ((rows.filter p).map key).Nodup :=
    distinct.sublist (List.filter_sublist.map key)
  cases found : get key (rows.filter p) k with
  | none =>
    cases found' : get key rows k with
    | none => rfl
    | some r =>
      have fails : ¬ p r = true := fun passes => get_eq_none.mp found
        (get_key found' ▸ List.mem_map_of_mem (List.mem_filter.mpr ⟨get_mem found', passes⟩))
      exact Option.filter_some_neg (Bool.eq_false_iff.mpr fails)
  | some r =>
    obtain ⟨listed, passes⟩ := List.mem_filter.mp (get_mem found)
    rw [← get_key found, get_of_mem distinct listed]
    exact Option.filter_some_pos passes

/-- An update that keeps the outcome of the test happens in the view. -/
theorem view_update (keeps : ∀ r, p (f r) = p r) :
    (update key rows k f).filter p = update key (rows.filter p) k f := by
  have same : (p ∘ fun r => if key r = k then f r else r) = p := by
    funext r
    by_cases here : key r = k <;> simp [here, keeps]
  unfold update
  rw [List.filter_map, same]

/-- An update of rows that fail the test, before and after, is not seen. -/
theorem view_update_outside (keeps : ∀ r, p (f r) = p r)
    (outside : ∀ r ∈ rows, key r = k → p r = false) :
    (update key rows k f).filter p = rows.filter p := by
  rw [view_update keeps]
  refine update_of_absent (fun listed => ?_)
  obtain ⟨r, inside, same⟩ := List.mem_map.mp listed
  obtain ⟨row, passes⟩ := List.mem_filter.mp inside
  rw [outside r row same] at passes
  cases passes

end Views

end Table
