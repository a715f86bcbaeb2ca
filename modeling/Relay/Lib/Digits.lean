import Mathlib.Algebra.Group.Nat.Defs
import Mathlib.Tactic.Common

/-!
# Numbers in a fixed number of digits

The digits of a number to a base, most significant first, cut off or padded with
zeros to a given count.
-/

namespace Digits

/-- The last `count` digits of a number. -/
def digits (base : Nat) : Nat → Nat → List Nat
  | 0, _ => []
  | count + 1, n => digits base count (n / base) ++ [n % base]

/-- The number that digits write. -/
def value (base : Nat) (ds : List Nat) : Nat := ds.foldl (fun v d => v * base + d) 0

variable {base count m n : Nat}

@[simp] theorem length_digits (base count n : Nat) : (digits base count n).length = count := by
  induction count generalizing n with
  | zero => rfl
  | succ count ih => rw [digits, List.length_append, ih, List.length_singleton]

theorem lt_of_mem_digits (positive : 0 < base) {d : Nat} (h : d ∈ digits base count n) :
    d < base := by
  induction count generalizing n with
  | zero => cases h
  | succ count ih =>
    rcases List.mem_append.mp h with more | last
    · exact ih more
    · rw [List.mem_singleton.mp last]
      exact Nat.mod_lt n positive

theorem value_append (ds : List Nat) (d : Nat) :
    value base (ds ++ [d]) = value base ds * base + d := by
  rw [value, List.foldl_append]
  rfl

/-- A number is read back from enough of its digits. -/
theorem value_digits (small : n < base ^ count) : value base (digits base count n) = n := by
  induction count generalizing n with
  | zero =>
    have zero : n = 0 := Nat.lt_one_iff.mp small
    exact zero.symm
  | succ count ih =>
    have shorter : n / base < base ^ count := Nat.div_lt_of_lt_mul (by rwa [← Nat.pow_succ'])
    rw [digits, value_append, ih shorter]
    exact Nat.div_add_mod' n base

theorem digits_injective (hm : m < base ^ count) (hn : n < base ^ count)
    (same : digits base count m = digits base count n) : m = n := by
  rw [← value_digits hm, ← value_digits hn, same]

/-- The sixteen characters of hexadecimal digits differ. -/
theorem digitChar_injective (hm : m < 16) (hn : n < 16) (same : m.digitChar = n.digitChar) :
    m = n := by
  have all : ∀ m < 16, ∀ n < 16, m.digitChar = n.digitChar → m = n := by decide +kernel
  exact all m hm n hn same

/-- Hexadecimal digits as characters. -/
def hex (count n : Nat) : List Char := (digits 16 count n).map Nat.digitChar

@[simp] theorem length_hex (count n : Nat) : (hex count n).length = count := by
  rw [hex, List.length_map, length_digits]

theorem mem_hex {c : Char} (h : c ∈ hex count n) : ∃ d < 16, c = d.digitChar := by
  obtain ⟨d, digit, rfl⟩ := List.mem_map.mp h
  exact ⟨d, lt_of_mem_digits (by decide) digit, rfl⟩

theorem hex_injective (hm : m < 16 ^ count) (hn : n < 16 ^ count)
    (same : hex count m = hex count n) : m = n := by
  have chars : ∀ d ∈ digits 16 count m, ∀ e ∈ digits 16 count n,
      d.digitChar = e.digitChar → d = e := fun _ hd _ he =>
    digitChar_injective (lt_of_mem_digits (by decide) hd) (lt_of_mem_digits (by decide) he)
  refine digits_injective hm hn ?_
  refine List.ext_getElem (by rw [length_digits, length_digits]) (fun i hi hi' => ?_)
  have here : (digits 16 count m)[i].digitChar = (digits 16 count n)[i].digitChar := by
    have read := congrArg (fun cs => cs[i]?) same
    simp only [hex, List.getElem?_map, List.getElem?_eq_getElem hi, List.getElem?_eq_getElem hi',
      Option.map_some] at read
    exact Option.some.inj read
  exact chars _ (List.getElem_mem hi) _ (List.getElem_mem hi') here

/-- The hexadecimal text of bytes, two characters each. -/
def hexBytes (bytes : List UInt8) : List Char := bytes.flatMap (fun b => hex 2 b.toNat)

theorem mem_hexBytes {c : Char} {bytes : List UInt8} (h : c ∈ hexBytes bytes) :
    ∃ d < 16, c = d.digitChar := by
  obtain ⟨b, _, digit⟩ := List.mem_flatMap.mp h
  exact mem_hex digit

theorem hexBytes_cons (b : UInt8) (bytes : List UInt8) :
    hexBytes (b :: bytes) = hex 2 b.toNat ++ hexBytes bytes := List.flatMap_cons

@[simp] theorem length_hexBytes (bytes : List UInt8) :
    (hexBytes bytes).length = 2 * bytes.length := by
  induction bytes with
  | nil => rfl
  | cons b bytes ih =>
    rw [hexBytes_cons, List.length_append, length_hex, ih, List.length_cons]
    omega

theorem hexBytes_injective : Function.Injective hexBytes := by
  intro as bs same
  have lengths : as.length = bs.length := by
    have texts := congrArg List.length same
    rw [length_hexBytes, length_hexBytes] at texts
    omega
  induction as generalizing bs with
  | nil => exact (List.length_eq_zero_iff.mp lengths.symm).symm
  | cons a as ih =>
    cases bs with
    | nil => cases lengths
    | cons b bs =>
      rw [hexBytes_cons, hexBytes_cons] at same
      obtain ⟨first, rest⟩ := List.append_inj same (by rw [length_hex, length_hex])
      have here : a = b := UInt8.toNat_inj.mp (hex_injective a.toNat_lt b.toNat_lt first)
      rw [here, ih rest (Nat.succ.inj lengths)]

end Digits
