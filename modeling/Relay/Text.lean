import Relay.Config
import Relay.Lib.Digits

/-!
# Python's texts

A `str` may hold lone surrogates, which UTF-8 cannot encode. Python turns no
integer of more than `maxStrDigits` digits into a text.
-/

namespace Relay

/-- The exceptions of Python's own functions that the texts below raise. -/
inductive Raised where
  | valueError
  | typeError
  | recursionError
  deriving DecidableEq

/-- U+0000, which Postgres stores in no text. -/
def nul : Char := Char.ofNat 0

/-- A character of a `str`: a surrogate may stand alone. -/
inductive PyChar where
  | scalar (c : Char)
  | surrogate (offset : Fin 0x800)
  deriving DecidableEq

abbrev PyStr := List PyChar

/-- The scalar value, if it is one. -/
def PyChar.char : PyChar → Option Char
  | .scalar c => some c
  | .surrogate _ => none

def PyStr.ofText (text : String) : PyStr := text.toList.map PyChar.scalar

/-- UTF-8 encodes the text. -/
def PyStr.Encodable (text : PyStr) : Prop := ∀ c ∈ text, c.char.isSome = true

instance (text : PyStr) : Decidable text.Encodable := List.decidableBAll _ _

/-- A TEXT column takes the character. -/
def PyChar.Storable (c : PyChar) : Prop := c.char.isSome = true ∧ c ≠ .scalar nul

instance (c : PyChar) : Decidable c.Storable := inferInstanceAs (Decidable (_ ∧ _))

/-- What a JSON document may hold of a text: no U+0000, and no surrogate but in a pair. -/
def PyStr.JsonStorable : PyStr → Prop
  | [] => True
  | .scalar c :: rest => c ≠ nul ∧ JsonStorable rest
  | .surrogate high :: .surrogate low :: rest =>
    (high.val < 0x400 ∧ 0x400 ≤ low.val) ∧ JsonStorable rest
  | .surrogate _ :: _ => False

instance PyStr.decidableJsonStorable : (text : PyStr) → Decidable text.JsonStorable
  | [] => isTrue trivial
  | .scalar c :: rest =>
    @instDecidableAnd (c ≠ nul) _ inferInstance (decidableJsonStorable rest)
  | .surrogate high :: .surrogate low :: rest =>
    @instDecidableAnd (high.val < 0x400 ∧ 0x400 ≤ low.val) _ inferInstance
      (decidableJsonStorable rest)
  | [.surrogate _] => isFalse id
  | .surrogate _ :: .scalar _ :: _ => isFalse id

theorem PyStr.jsonStorable_ofText {text : String} :
    (ofText text).JsonStorable ↔ nul ∉ text.toList := by
  unfold ofText
  induction text.toList with
  | nil => exact ⟨fun _ => List.not_mem_nil, fun _ => trivial⟩
  | cons c rest ih =>
    rw [List.map_cons, JsonStorable, ih, List.mem_cons, not_or]
    exact and_congr_left' ne_comm

/-- The text without its lone surrogates. -/
def PyStr.scalars (text : PyStr) : String := String.ofList (text.filterMap PyChar.char)

theorem ok_bind {A B : Type} (a : A) (f : A → Except Raised B) : (Except.ok a >>= f) = f a := rfl

theorem bind_eq_ok {E A B : Type} {m : Except E A} {f : A → Except E B} {b : B} :
    (m >>= f) = .ok b ↔ ∃ a, m = .ok a ∧ f a = .ok b := by
  cases m with
  | error e => exact iff_of_false (by rintro ⟨⟩) (by rintro ⟨_, ⟨⟩, _⟩)
  | ok a =>
    constructor
    · exact fun ran => ⟨a, rfl, ran⟩
    · rintro ⟨_, same, ran⟩
      cases same
      exact ran

theorem seq_ok {first rest : Except Raised Unit} :
    (first >>= fun _ => rest) = .ok () ↔ first = .ok () ∧ rest = .ok () := by
  rw [bind_eq_ok]
  constructor
  · rintro ⟨_, done, more⟩
    exact ⟨done, more⟩
  · rintro ⟨done, more⟩
    exact ⟨(), done, more⟩

/-- `sys.int_info.default_max_str_digits`. -/
def maxStrDigits : Nat := 4300

/-- The number has a text. -/
def Printable (n : Int) : Prop := n.natAbs < 10 ^ maxStrDigits

instance (n : Int) : Decidable (Printable n) := inferInstanceAs (Decidable (_ < _))

/-- `str` of an integer. -/
def intText (n : Int) : Except Raised String :=
  if Printable n then .ok (toString n) else .error .valueError

/-- `str` of a UUID. -/
def uuidText (id : Uuid) : String :=
  let hex := Digits.hex 32 id.toNat
  String.intercalate "-" [String.ofList (hex.take 8), String.ofList ((hex.drop 8).take 4),
    String.ofList ((hex.drop 12).take 4), String.ofList ((hex.drop 16).take 4),
    String.ofList (hex.drop 20)]

example : uuidText 0x0123456789abcdef0123456789abcdef = "01234567-89ab-cdef-0123-456789abcdef" := by
  decide +kernel

/-- The characters of the text: five groups of digits, hyphens between them. -/
theorem toList_uuidText (id : Uuid) :
    (uuidText id).toList = (Digits.hex 32 id.toNat).take 8 ++
      '-' :: (((Digits.hex 32 id.toNat).drop 8).take 4 ++
        '-' :: (((Digits.hex 32 id.toNat).drop 12).take 4 ++
          '-' :: (((Digits.hex 32 id.toNat).drop 16).take 4 ++
            '-' :: (Digits.hex 32 id.toNat).drop 20))) := by
  simp [uuidText]

theorem mem_uuidText {id : Uuid} {c : Char} (h : c ∈ (uuidText id).toList) :
    c = '-' ∨ c ∈ Digits.hex 32 id.toNat := by
  rw [toList_uuidText] at h
  simp only [List.mem_append, List.mem_cons] at h
  rcases h with h | rfl | h | rfl | h | rfl | h | rfl | h
  · exact Or.inr (List.mem_of_mem_take h)
  · exact Or.inl rfl
  · exact Or.inr (List.mem_of_mem_drop (List.mem_of_mem_take h))
  · exact Or.inl rfl
  · exact Or.inr (List.mem_of_mem_drop (List.mem_of_mem_take h))
  · exact Or.inl rfl
  · exact Or.inr (List.mem_of_mem_drop (List.mem_of_mem_take h))
  · exact Or.inl rfl
  · exact Or.inr (List.mem_of_mem_drop h)

/-- No separator of lists, paths or keys occurs in the text. -/
theorem not_mem_uuidText {c : Char} (hyphen : c ≠ '-') (digit : ∀ d < 16, c ≠ d.digitChar)
    (id : Uuid) : c ∉ (uuidText id).toList := by
  intro h
  rcases mem_uuidText h with rfl | h
  · exact hyphen rfl
  · obtain ⟨d, small, same⟩ := Digits.mem_hex h
    exact digit d small same

theorem uuidText_ne_nil (id : Uuid) : (uuidText id).toList ≠ [] := by
  rw [toList_uuidText]
  exact List.append_ne_nil_of_right_ne_nil _ (List.cons_ne_nil _ _)

/-- Without the hyphens the text is the number in hexadecimal. -/
theorem filter_uuidText (id : Uuid) :
    (uuidText id).toList.filter (fun c => c ≠ '-') = Digits.hex 32 id.toNat := by
  have digits : ∀ l : List Char, (∀ c ∈ l, c ∈ Digits.hex 32 id.toNat) →
      l.filter (fun c => c ≠ '-') = l := by
    intro l inside
    refine List.filter_eq_self.mpr (fun c h => decide_eq_true ?_)
    obtain ⟨d, small, rfl⟩ := Digits.mem_hex (inside c h)
    have all : ∀ d < 16, d.digitChar ≠ '-' := by decide
    exact all d small
  rw [toList_uuidText]
  simp only [List.filter_append, List.filter_cons, ne_eq, not_true_eq_false, decide_false,
    Bool.false_eq_true, if_false]
  rw [digits _ (fun _ h => List.mem_of_mem_take h),
    digits _ (fun _ h => List.mem_of_mem_drop (List.mem_of_mem_take h)),
    digits _ (fun _ h => List.mem_of_mem_drop (List.mem_of_mem_take h)),
    digits _ (fun _ h => List.mem_of_mem_drop (List.mem_of_mem_take h)),
    digits _ (fun _ h => List.mem_of_mem_drop h)]
  have cut : ∀ n m (l : List Char), (l.drop n).take m ++ l.drop (n + m) = l.drop n := by
    intro n m l
    rw [← List.drop_drop, List.take_append_drop]
  rw [cut 16 4, cut 12 4, cut 8 4, List.take_append_drop]

theorem uuidText_injective : Function.Injective uuidText := by
  intro a b same
  have hex : Digits.hex 32 a.toNat = Digits.hex 32 b.toNat := by
    rw [← filter_uuidText a, ← filter_uuidText b, same]
  exact BitVec.eq_of_toNat_eq (Digits.hex_injective a.isLt b.isLt hex)

/-! Integers -/

theorem isDigit_bounds {c : Char} (digit : c.isDigit = true) : 48 ≤ c.toNat ∧ c.toNat ≤ 57 :=
  Char.isDigit_iff_toNat.mp digit

theorem toList_toString (n : Int) :
    (toString n).toList =
      if 0 ≤ n then Nat.toDigits 10 n.toNat else '-' :: Nat.toDigits 10 (-n).toNat := by
  rw [Int.toString_eq_repr, Int.repr_eq_if]
  by_cases positive : 0 ≤ n
  · rw [if_pos positive, if_pos positive, Nat.toList_repr]
  · rw [if_neg positive, if_neg positive, String.toList_append, Nat.toList_repr]
    rfl

theorem mem_toString {n : Int} {c : Char} (h : c ∈ (toString n).toList) :
    c = '-' ∨ c.isDigit = true := by
  rw [toList_toString] at h
  split at h
  · exact Or.inr (Nat.isDigit_of_mem_toDigits (by decide) (by decide) h)
  · rcases List.mem_cons.mp h with sign | digit
    · exact Or.inl sign
    · exact Or.inr (Nat.isDigit_of_mem_toDigits (by decide) (by decide) digit)

theorem toDigits_injective {m n : Nat} (same : Nat.toDigits 10 m = Nat.toDigits 10 n) : m = n := by
  rw [← Nat.ofDigitChars_ten_toDigits (n := m), same, Nat.ofDigitChars_ten_toDigits]

/-- A minus sign does not begin a row of digits. -/
theorem toDigits_ne_minus (m : Nat) (rest : List Char) : Nat.toDigits 10 m ≠ '-' :: rest := by
  intro same
  have sign : '-' ∈ Nat.toDigits 10 m := same ▸ List.mem_cons_self
  exact absurd (Nat.isDigit_of_mem_toDigits (by decide) (by decide) sign) (by decide)

theorem toString_injective : Function.Injective (fun n : Int => toString n) := by
  intro m n same
  have texts : (toString m).toList = (toString n).toList := congrArg String.toList same
  rw [toList_toString, toList_toString] at texts
  by_cases hm : 0 ≤ m
  · by_cases hn : 0 ≤ n
    · rw [if_pos hm, if_pos hn] at texts
      have := toDigits_injective texts
      omega
    · rw [if_pos hm, if_neg hn] at texts
      exact absurd texts (toDigits_ne_minus _ _)
  · by_cases hn : 0 ≤ n
    · rw [if_neg hm, if_pos hn] at texts
      exact absurd texts.symm (toDigits_ne_minus _ _)
    · rw [if_neg hm, if_neg hn] at texts
      have := toDigits_injective (List.cons.inj texts).2
      omega

end Relay
