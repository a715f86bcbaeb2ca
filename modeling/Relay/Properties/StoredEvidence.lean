import Relay.Agent.Jsonable

/-!
# Which tool results survive the store

`_jsonable` asks whether `json.dumps` raises, Postgres whether it likes the text.
-/

namespace Relay.Agent

open Retry
open JsonText (quotation backslash)

/-- U+0000 is in the text that `repr` gives an object. -/
def PyValue.Prints : PyValue → Prop
  | .object _ text => nul ∈ text.toList
  | _ => False

namespace PyValue

mutual

/-- How many values are nested in one another. -/
def height : PyValue → Nat
  | .list items => heightOfItems items + 1
  | .dict fields => heightOfFields fields + 1
  | _ => 1

def heightOfItems : List PyValue → Nat
  | [] => 0
  | v :: rest => max v.height (heightOfItems rest)

def heightOfFields : List (String × PyValue) → Nat
  | [] => 0
  | (_, v) :: rest => max v.height (heightOfFields rest)

end

/-- `str` of the value has a text, and that is without U+0000. -/
def Plain (depth : Nat) : PyValue → Prop
  | .str s => nul ∉ s.toList
  | .object text _ => nul ∉ text.toList
  | v => v.height ≤ depth ∧ ∀ x ∈ v.leaves, x.Short ∧ ¬ x.Prints

end PyValue

variable {p : Printing} {d : Depths} {depth : Nat}

/-! Texts without U+0000 -/

theorem nul_not_mem_hex (count n : Nat) : nul ∉ Digits.hex count n := by
  intro h
  obtain ⟨d, small, same⟩ := Digits.mem_hex h
  have all : ∀ d < 16, nul ≠ d.digitChar := by decide
  exact all d small same

theorem ne_nul {c : Char} (above : ¬ c.toNat < 32) : nul ≠ c := by
  rintro rfl
  exact above (by decide)

/-- An escape sequence with its letter and digits. -/
theorem nul_not_mem_sequence {letter : Char} {digits : List Char} (letter_ne : nul ≠ letter)
    (digits_plain : nul ∉ digits) : nul ∉ backslash :: letter :: digits := by
  have slash : nul ≠ backslash := by decide
  simp [slash, letter_ne, digits_plain]

theorem nul_not_mem_escape {quote : Char} (other : nul ≠ quote) (c : Char) :
    nul ∉ escape p quote c := by
  unfold escape
  split
  · rename_i same
    refine nul_not_mem_sequence ?_ List.not_mem_nil
    rcases same with rfl | rfl
    · exact other
    · decide
  · split
    · exact nul_not_mem_sequence (by decide) List.not_mem_nil
    · split
      · exact nul_not_mem_sequence (by decide) List.not_mem_nil
      · split
        · exact nul_not_mem_sequence (by decide) List.not_mem_nil
        · split
          · exact nul_not_mem_sequence (by decide) (nul_not_mem_hex _ _)
          · rename_i low
            split
            · exact fun h => ne_nul (fun h => low (Or.inl h)) (List.mem_singleton.mp h)
            · split
              · exact nul_not_mem_sequence (by decide) (nul_not_mem_hex _ _)
              · split
                · exact nul_not_mem_sequence (by decide) (nul_not_mem_hex _ _)
                · exact nul_not_mem_sequence (by decide) (nul_not_mem_hex _ _)

theorem nul_not_mem_reprString (s : String) : nul ∉ reprString p s := by
  have quoted : ∀ quote : Char, nul ≠ quote →
      nul ∉ quote :: s.toList.flatMap (escape p quote) ++ [quote] := by
    intro quote other
    simp only [List.cons_append, List.mem_cons, List.mem_append, List.mem_flatMap,
      List.not_mem_nil, or_false]
    rintro (same | ⟨c, _, inside⟩ | same)
    · exact other same
    · exact nul_not_mem_escape other c inside
    · exact other same
  unfold reprString
  simp only
  split
  · exact quoted quotation (by decide)
  · exact quoted apostrophe (by decide)

theorem nul_not_mem_floatText (x : PyFloat) : nul ∉ floatText p x := by
  cases x with
  | finite q => exact p.finite_plain q
  | posInf => exact (by decide : nul ∉ ['i', 'n', 'f'])
  | negInf => exact (by decide : nul ∉ ['-', 'i', 'n', 'f'])
  | nan => exact (by decide : nul ∉ ['n', 'a', 'n'])

theorem nul_not_mem_toString (n : Int) : nul ∉ (toString n).toList := by
  intro h
  rcases mem_toString h with sign | digit
  · exact absurd sign (by decide)
  · exact absurd digit (by decide)

/-- What is in no separator is in a joined text if it is in a part. -/
theorem mem_intercalate {c : Char} {sep : List Char} (outside : c ∉ sep)
    (parts : List (List Char)) :
    c ∈ sep.intercalate parts ↔ ∃ part ∈ parts, c ∈ part := by
  induction parts with
  | nil => simp
  | cons part rest ih =>
    cases rest with
    | nil => simp
    | cons next rest =>
      rw [List.intercalate_cons_cons, List.mem_append, List.mem_append, ih]
      simp [outside]

theorem mem_enclosed {c opening closing : Char} {inner : List Char} (left : c ≠ opening)
    (right : c ≠ closing) : c ∈ opening :: inner ++ [closing] ↔ c ∈ inner := by
  simp [left, right]

namespace PyValue

mutual

/-- The text of a value has U+0000 only from an object inside. -/
theorem nul_mem_reprChars : ∀ v : PyValue, nul ∈ v.reprChars p ↔ ∃ x ∈ v.leaves, x.Prints
  | .none | .bool true | .bool false => by simp [reprChars, leaves, Prints]; decide
  | .int n => by simpa [reprChars, leaves, Prints] using nul_not_mem_toString n
  | .float x => by simpa [reprChars, leaves, Prints] using nul_not_mem_floatText x
  | .str s => by simpa [reprChars, leaves, Prints] using nul_not_mem_reprString s
  | .object _ text => by simp [reprChars, leaves, Prints]
  | .list items => by
    have inside := nul_mem_reprItems items
    rw [← mem_intercalate (by decide : nul ∉ [',', ' '])] at inside
    rw [leaves, ← inside, reprChars]
    exact mem_enclosed (by decide) (by decide)
  | .dict fields => by
    have inside := nul_mem_reprFields fields
    rw [← mem_intercalate (by decide : nul ∉ [',', ' '])] at inside
    rw [leaves, ← inside, reprChars]
    exact mem_enclosed (by decide) (by decide)

theorem nul_mem_reprItems : ∀ items : List PyValue,
    (∃ part ∈ reprItems p items, nul ∈ part) ↔ ∃ x ∈ leavesOfItems items, x.Prints
  | [] => by simp [reprItems, leavesOfItems]
  | v :: rest => by
    have first := nul_mem_reprChars v
    have others := nul_mem_reprItems rest
    simp only [reprItems, leavesOfItems, List.mem_cons, List.mem_append, or_and_right, exists_or,
      exists_eq_left, first, others]

theorem nul_mem_reprFields : ∀ fields : List (String × PyValue),
    (∃ part ∈ reprFields p fields, nul ∈ part) ↔ ∃ x ∈ leavesOfFields fields, x.Prints
  | [] => by simp [reprFields, leavesOfFields]
  | (k, v) :: rest => by
    have plain : nul ∉ reprString p k ++ [':', ' '] := by
      rw [List.mem_append]
      rintro (key | colon)
      · exact nul_not_mem_reprString k key
      · exact absurd colon (by decide)
    have first : nul ∈ reprString p k ++ [':', ' '] ++ v.reprChars p ↔
        ∃ x ∈ v.leaves, x.Prints := by
      rw [List.mem_append, or_iff_right plain, nul_mem_reprChars v]
    have others := nul_mem_reprFields rest
    simp only [leavesOfFields, List.mem_append, or_and_right, exists_or]
    rw [reprFields]
    simp only [List.mem_cons, or_and_right, exists_or, exists_eq_left, first, others]

end

/-! What `str` leaves -/

mutual

theorem shows_ok : ∀ (depth : Nat) (v : PyValue),
    v.shows depth = .ok () ↔ v.height ≤ depth ∧ ∀ x ∈ v.leaves, x.Short
  | 0, v => by
    have positive : 0 < v.height := by cases v <;> simp [height]
    rw [shows]
    exact iff_of_false (by rintro ⟨⟩) (fun both => absurd both.1 (by omega))
  | depth + 1, .list items => by
    rw [shows, showsItems_ok depth items, height, leaves, Nat.succ_le_succ_iff]
  | depth + 1, .dict fields => by
    rw [shows, showsFields_ok depth fields, height, leaves, Nat.succ_le_succ_iff]
  | depth + 1, .int n => by
    have low : (int n).height ≤ depth + 1 := Nat.succ_le_succ (Nat.zero_le depth)
    change showsInt n = _ ↔ _ ∧ ∀ x ∈ [int n], x.Short
    rw [and_iff_right low, List.forall_mem_singleton]
    exact showsInt_ok
  | depth + 1, .none | depth + 1, .bool _ | depth + 1, .float _ | depth + 1, .str _
  | depth + 1, .object _ _ => by simp [shows, height, leaves, Short]

theorem showsItems_ok (depth : Nat) : ∀ items : List PyValue,
    showsItems depth items = .ok () ↔
      heightOfItems items ≤ depth ∧ ∀ x ∈ leavesOfItems items, x.Short
  | [] => by simp [showsItems, heightOfItems, leavesOfItems]
  | v :: rest => by
    rw [showsItems, seq_ok, shows_ok depth v, showsItems_ok depth rest, heightOfItems,
      leavesOfItems, List.forall_mem_append, max_le_iff]
    exact and_and_and_comm

theorem showsFields_ok (depth : Nat) : ∀ fields : List (String × PyValue),
    showsFields depth fields = .ok () ↔
      heightOfFields fields ≤ depth ∧ ∀ x ∈ leavesOfFields fields, x.Short
  | [] => by simp [showsFields, heightOfFields, leavesOfFields]
  | (k, v) :: rest => by
    rw [showsFields, seq_ok, shows_ok depth v, showsFields_ok depth rest, heightOfFields,
      leavesOfFields, List.forall_mem_append, max_le_iff]
    exact and_and_and_comm

end

theorem storable_str {s : String} : (PyValue.str s).Storable depth ↔ nul ∉ s.toList := by
  constructor
  · intro storable
    exact storable.leaves (.str s) List.mem_cons_self
  · intro plain
    refine ⟨dumps_str depth s, fun x h => ?_, fun k h => absurd h List.not_mem_nil⟩
    rw [List.mem_singleton.mp h]
    exact plain

end PyValue

end Relay.Agent
