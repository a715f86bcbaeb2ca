import Relay.Lib.JsonText

/-!
# Texts are read back

The reader gives back every well-formed value from its text, with whatever
separators it was written, and goes on behind it.
-/

namespace JsonText

variable {F : Type} {rest : List Char}

/-! Characters in front of the rest -/

/-- No number goes on in the rest. -/
def Ends (rest : List Char) : Prop :=
  ∀ c ∈ rest.head?, c.isDigit = false ∧ c ≠ '.' ∧ c ≠ 'e' ∧ c ≠ 'E'

def NoDigit (rest : List Char) : Prop := ∀ c ∈ rest.head?, c.isDigit = false

theorem Ends.noDigit (ends : Ends rest) : NoDigit rest := fun c h => (ends c h).1

theorem ends_nil : Ends [] := by
  intro c h
  cases h

theorem noDigit_cons {c : Char} (plain : c.isDigit = false) (rest : List Char) :
    NoDigit (c :: rest) := by
  intro d h
  cases h
  exact plain

theorem takeWhile_digits {ds : List Char} (digits : ∀ d ∈ ds, d.isDigit = true)
    (ends : NoDigit rest) :
    (ds ++ rest).takeWhile Char.isDigit = ds ∧ (ds ++ rest).dropWhile Char.isDigit = rest := by
  induction ds with
  | nil =>
    cases rest with
    | nil => exact ⟨rfl, rfl⟩
    | cons c more =>
      have plain := ends c rfl
      simp [plain]
  | cons d ds ih =>
    have first := digits d List.mem_cons_self
    obtain ⟨taken, dropped⟩ := ih (fun e h => digits e (List.mem_cons_of_mem d h))
    simp [first, taken, dropped]

/-! Numbers -/

theorem natural_append {ds : List Char} (shape : Natural ds) (ends : NoDigit rest) :
    natural (ds ++ rest) = some (ds, rest) := by
  rcases shape with rfl | ⟨c, ds, rfl, nonzero, digits⟩
  · rfl
  · have first := digits c List.mem_cons_self
    obtain ⟨taken, dropped⟩ :=
      takeWhile_digits (fun d h => digits d (List.mem_cons_of_mem c h)) ends
    rw [List.cons_append, natural, if_neg nonzero, if_pos first, taken, dropped]

/-- A whole part begins with a digit, perhaps after a sign. -/
theorem Natural.head {ds : List Char} (shape : Natural ds) :
    ∃ c cs, ds = c :: cs ∧ c.isDigit = true := by
  rcases shape with rfl | ⟨c, ds, rfl, _, digits⟩
  · exact ⟨'0', [], rfl, rfl⟩
  · exact ⟨c, ds, rfl, digits c List.mem_cons_self⟩

theorem digit_ne_minus {c : Char} (digit : c.isDigit = true) : c ≠ '-' := by
  rintro rfl
  cases digit

theorem whole_append {w : List Char} (shape : Whole w) (ends : NoDigit rest) :
    whole (w ++ rest) = some (w, rest) := by
  rcases shape with natural | ⟨ds, rfl, natural⟩
  · have read := natural_append natural ends
    obtain ⟨c, cs, rfl, digit⟩ := natural.head
    rw [List.cons_append, whole, if_neg (digit_ne_minus digit)]
    exact read
  · rw [List.cons_append, whole, if_pos rfl, natural_append natural ends]
    rfl

theorem fraction_append {f : List Char} (shape : Fraction f) (ends : NoDigit rest)
    (dotless : f = [] → rest.head? ≠ some '.') : fraction (f ++ rest) = (f, rest) := by
  rcases shape with rfl | ⟨ds, rfl, nonempty, digits⟩
  · cases rest with
    | nil => rfl
    | cons c more =>
      have other : c ≠ '.' := fun same => dotless rfl (same ▸ rfl)
      rw [List.nil_append, fraction, if_neg (fun h => other h.1)]
  · obtain ⟨taken, dropped⟩ := takeWhile_digits digits ends
    rw [List.cons_append, fraction, taken, dropped, if_pos ⟨rfl, nonempty⟩]

theorem sign_append {s ds : List Char} (shape : s = [] ∨ s = ['+'] ∨ s = ['-'])
    (nonempty : ds ≠ []) (digits : ∀ d ∈ ds, d.isDigit = true) (rest : List Char) :
    sign (s ++ (ds ++ rest)) = (s, ds ++ rest) := by
  rcases shape with rfl | rfl | rfl
  · cases ds with
    | nil => exact absurd rfl nonempty
    | cons d ds =>
      have first := digits d List.mem_cons_self
      have unsigned : ¬ (d = '+' ∨ d = '-') := by
        rintro (rfl | rfl) <;> cases first
      rw [List.nil_append, List.cons_append, sign, if_neg unsigned]
  · rfl
  · rfl

theorem exponent_append {e : List Char} (shape : Exponent e) (ends : NoDigit rest)
    (plain : e = [] → ∀ c ∈ rest.head?, c ≠ 'e' ∧ c ≠ 'E') :
    exponent (e ++ rest) = (e, rest) := by
  rcases shape with rfl | ⟨c, s, ds, rfl, letter, signed, nonempty, digits⟩
  · cases rest with
    | nil => rfl
    | cons c more =>
      have other := plain rfl c rfl
      have neither : ¬ (c = 'e' ∨ c = 'E') := fun h => h.elim other.1 other.2
      rw [List.nil_append, exponent, if_neg (fun h => neither h.1)]
  · obtain ⟨taken, dropped⟩ := takeWhile_digits digits ends
    rw [List.cons_append, List.append_assoc, exponent, sign_append signed nonempty digits, taken,
      dropped, if_pos ⟨letter, nonempty⟩]

theorem Exponent.noDigit {e : List Char} (shape : Exponent e) (ends : NoDigit rest) :
    NoDigit (e ++ rest) := by
  rcases shape with rfl | ⟨c, s, ds, rfl, letter, _⟩
  · exact ends
  · refine noDigit_cons ?_ _
    rcases letter with rfl | rfl <;> rfl

theorem Exponent.head_ne_dot {e : List Char} (shape : Exponent e) (nonempty : e ≠ []) :
    (e ++ rest).head? ≠ some '.' := by
  rcases shape with rfl | ⟨c, s, ds, rfl, letter, _⟩
  · exact absurd rfl nonempty
  · rintro same
    cases same
    rcases letter with letter | letter <;> cases letter

theorem number_float {format : FloatText F} {maxDigits : Nat} {x : F}
    (readable : format.Readable x) (ends : Ends rest) :
    number format maxDigits (format.text x ++ rest) = .ok (.float x, rest) := by
  obtain ⟨w, f, e, text, isWhole, isFraction, isExponent, nonempty⟩ := readable.fractional
  have read := readable.read_text
  rw [text] at read ⊢
  have noDigit := isExponent.noDigit ends.noDigit
  have start : NoDigit (f ++ (e ++ rest)) := by
    rcases isFraction with rfl | ⟨ds, rfl, _⟩
    · exact noDigit
    · exact noDigit_cons rfl _
  have dotless : f = [] → (e ++ rest).head? ≠ some '.' := by
    rintro rfl
    exact isExponent.head_ne_dot nonempty
  have wholes : whole (w ++ (f ++ (e ++ rest))) = some (w, f ++ (e ++ rest)) :=
    whole_append isWhole start
  have fractions : fraction (f ++ (e ++ rest)) = (f, e ++ rest) :=
    fraction_append isFraction noDigit dotless
  have exponents : exponent (e ++ rest) = (e, rest) :=
    exponent_append isExponent ends.noDigit
      (fun _ c h => ⟨(ends c h).2.2.1, (ends c h).2.2.2⟩)
  simp only [number, List.append_assoc, wholes, fractions, exponents, if_neg nonempty, read]

/-! Integers -/

theorem head_toDigits {n : Nat} (nonzero : n ≠ 0) : (Nat.toDigits 10 n).head? ≠ some '0' := by
  induction n using Nat.strong_induction_on with
  | _ n ih =>
    rw [Nat.toDigits_eq_if (by decide)]
    by_cases small : n < 10
    · rw [if_pos small]
      have all : ∀ d < 10, d ≠ 0 → d.digitChar ≠ '0' := by decide
      intro same
      exact all n small nonzero (Option.some.inj same)
    · rw [if_neg small]
      have shorter : n / 10 < n := Nat.div_lt_self (by omega) (by decide)
      have kept := ih (n / 10) shorter (by omega)
      cases text : Nat.toDigits 10 (n / 10) with
      | nil => exact absurd text Nat.toDigits_ne_nil
      | cons c ds =>
        rw [text] at kept
        exact kept

theorem natural_toDigits (n : Nat) : Natural (Nat.toDigits 10 n) := by
  have digits : ∀ d ∈ Nat.toDigits 10 n, d.isDigit = true :=
    fun d h => Nat.isDigit_of_mem_toDigits (by decide) (by decide) h
  by_cases zero : n = 0
  · subst zero
    exact Or.inl rfl
  · have first := head_toDigits zero
    cases text : Nat.toDigits 10 n with
    | nil => exact absurd text Nat.toDigits_ne_nil
    | cons c ds =>
      rw [text] at first digits
      exact Or.inr ⟨c, ds, rfl, fun same => first (congrArg some same), digits⟩

theorem toList_int (n : Int) :
    (toString n).toList =
      if 0 ≤ n then Nat.toDigits 10 n.natAbs else '-' :: Nat.toDigits 10 n.natAbs := by
  rw [Int.toString_eq_repr, Int.repr_eq_if]
  by_cases positive : 0 ≤ n
  · have same : n.toNat = n.natAbs := by omega
    rw [if_pos positive, if_pos positive, Nat.toList_repr, same]
  · have same : (-n).toNat = n.natAbs := by omega
    rw [if_neg positive, if_neg positive, String.toList_append, Nat.toList_repr, same]
    rfl

theorem whole_int (n : Int) : Whole (toString n).toList := by
  rw [toList_int]
  split
  · exact Or.inl (natural_toDigits _)
  · exact Or.inr ⟨_, rfl, natural_toDigits _⟩

theorem intValue_int (n : Int) : intValue (toString n).toList = n := by
  have magnitude : Nat.ofDigitChars 10 (Nat.toDigits 10 n.natAbs) 0 = n.natAbs :=
    Nat.ofDigitChars_ten_toDigits
  rw [toList_int]
  split
  · rename_i positive
    obtain ⟨c, ds, text, digit⟩ := (natural_toDigits n.natAbs).head
    rw [text] at magnitude ⊢
    rw [intValue, if_neg (digit_ne_minus digit), magnitude]
    omega
  · rw [intValue, if_pos rfl, magnitude]
    omega

theorem digitsOf_int (n : Int) : digitsOf (toString n).toList = Nat.toDigits 10 n.natAbs := by
  obtain ⟨c, ds, text, digit⟩ := (natural_toDigits n.natAbs).head
  have plain : digitsOf (Nat.toDigits 10 n.natAbs) = Nat.toDigits 10 n.natAbs := by
    rw [text, digitsOf, List.dropWhile_cons_of_neg (by simpa using digit_ne_minus digit)]
  rw [toList_int]
  split
  · exact plain
  · rw [digitsOf, List.dropWhile_cons_of_pos (by decide)]
    exact plain

theorem number_int {format : FloatText F} {maxDigits : Nat} (positive : 0 < maxDigits) {n : Int}
    (short : n.natAbs < 10 ^ maxDigits) (ends : Ends rest) :
    number format maxDigits ((toString n).toList ++ rest) = .ok (.int n, rest) := by
  have wholes : whole ((toString n).toList ++ rest) = some ((toString n).toList, rest) :=
    whole_append (whole_int n) ends.noDigit
  have fractions : fraction rest = ([], rest) :=
    fraction_append (Or.inl rfl) ends.noDigit (fun _ same => (ends '.' same).2.1 rfl)
  have exponents : exponent rest = ([], rest) :=
    exponent_append (Or.inl rfl) ends.noDigit
      (fun _ c h => ⟨(ends c h).2.2.1, (ends c h).2.2.2⟩)
  have length : ¬ maxDigits < (Nat.toDigits 10 n.natAbs).length :=
    Nat.not_lt_of_le ((Nat.length_toDigits_le_iff (by decide) positive).mpr short)
  simp only [number, wholes, fractions, exponents, List.append_nil, if_true, digitsOf_int,
    if_neg length, intValue_int]

/-! Scalars -/

/-- No literal begins with a digit, or with a minus sign in front of a digit. -/
theorem scalar_whole {format : FloatText F} {maxDigits : Nat} {w : List Char} (shape : Whole w)
    (rest : List Char) :
    scalar format maxDigits (w ++ rest) = number format maxDigits (w ++ rest) := by
  have other : ∀ {c : Char}, c.isDigit = true →
      c ≠ 'n' ∧ c ≠ 't' ∧ c ≠ 'f' ∧ c ≠ 'N' ∧ c ≠ 'I' ∧ c ≠ '-' := by
    intro c digit
    refine ⟨?_, ?_, ?_, ?_, ?_, ?_⟩ <;> (rintro rfl; cases digit)
  have none : literals.findSome? (fun p : List Char × Value F =>
      (p.1.isPrefixOf? (w ++ rest)).map (fun rest => (p.2, rest))) = Option.none := by
    rcases shape with natural | ⟨ds, rfl, natural⟩
    · obtain ⟨c, cs, rfl, digit⟩ := natural.head
      obtain ⟨n, t, f, nan, infinity, minus⟩ := other digit
      simp [literals, Constant.text, List.isPrefixOf?, n.symm, t.symm, f.symm, nan.symm,
        infinity.symm, minus.symm]
    · obtain ⟨c, cs, rfl, digit⟩ := natural.head
      obtain ⟨_, _, _, _, infinity, _⟩ := other digit
      simp [literals, Constant.text, List.isPrefixOf?, infinity.symm]
  rw [scalar, none]

/-! Strings -/

theorem hexDigit_digitChar {d : Nat} (small : d < 16) : hexDigit d.digitChar = some d := by
  have all : ∀ d < 16, hexDigit d.digitChar = some d := by decide
  exact all d small

theorem hexValue_hex {n : Nat} (small : n < 0x10000) (rest : List Char) :
    ∃ a b c d, Digits.hex 4 n ++ rest = a :: b :: c :: d :: rest ∧
      hexValue a b c d = some n := by
  refine ⟨_, _, _, _, rfl, ?_⟩
  have digit : ∀ k : Nat, hexDigit (k % 16).digitChar = some (k % 16) :=
    fun k => hexDigit_digitChar (Nat.mod_lt k (by decide))
  have back : ((n / 16 / 16 / 16 % 16 * 16 + n / 16 / 16 % 16) * 16 + n / 16 % 16) * 16 +
      n % 16 = n := by
    omega
  simp only [hexValue, digit, back]

/-- What a character is escaped as: itself, or its two surrogates. -/
def units (c : Char) : List Nat :=
  if c.toNat < 0x10000 then [c.toNat]
  else [0xD800 + (c.toNat - 0x10000) / 0x400, 0xDC00 + (c.toNat - 0x10000) % 0x400]

def pushAll {A : Type} (front : List A) : Except ReadError (List A × List Char) →
    Except ReadError (List A × List Char) :=
  Except.map (fun p => (front ++ p.1, p.2))

theorem pushAll_append {A : Type} (front more : List A)
    (r : Except ReadError (List A × List Char)) :
    pushAll (front ++ more) r = pushAll front (pushAll more r) := by
  cases r with
  | error e => rfl
  | ok p => simp [pushAll, Except.map]

theorem codePoints_quotation (rest : List Char) :
    codePoints (quotation :: rest) = .ok ([], rest) := by
  rw [codePoints.eq_def]
  simp only [if_true]

theorem codePoints_plain {c : Char} (quote : c ≠ quotation) (slash : c ≠ backslash)
    (printed : 32 ≤ c.toNat) (rest : List Char) :
    codePoints (c :: rest) = pushAll [c.toNat] (codePoints rest) := by
  have high : ¬ c.toNat < 32 := by omega
  rw [codePoints.eq_def]
  simp only [if_neg quote, if_neg slash, if_neg high]
  rfl

theorem codePoints_short {e : Char} {n : Nat} (short : shortEscape e = some n) (rest : List Char) :
    codePoints (backslash :: e :: rest) = pushAll [n] (codePoints rest) := by
  have other : backslash ≠ quotation := by decide
  rw [codePoints.eq_def]
  simp only [if_neg other, if_true, short]
  rfl

theorem codePoints_unicode {n : Nat} (small : n < 0x10000) (rest : List Char) :
    codePoints (unicodeEscape n ++ rest) = pushAll [n] (codePoints rest) := by
  obtain ⟨a, b, c, d, text, value⟩ := hexValue_hex small rest
  have other : backslash ≠ quotation := by decide
  have long : shortEscape 'u' = none := by decide
  rw [unicodeEscape, List.cons_append, List.cons_append, text, codePoints.eq_def]
  simp only [if_neg other, if_true, long, value]
  rfl

theorem toNat_lt (c : Char) : c.toNat < 0x110000 := by
  rcases c.valid with below | ⟨_, above⟩
  · exact Nat.lt_trans below (by decide)
  · exact above

theorem codePoints_escape (c : Char) (rest : List Char) :
    codePoints (escape c ++ rest) = pushAll (units c) (codePoints rest) := by
  have ascii : c.toNat < 128 → units c = [c.toNat] := fun small => if_pos (by omega)
  have short : ∀ {e : Char}, escape c = [backslash, e] → shortEscape e = some c.toNat →
      c.toNat < 128 → codePoints (escape c ++ rest) = pushAll (units c) (codePoints rest) := by
    intro e text read small
    rw [text, ascii small]
    exact codePoints_short read rest
  have ne : ∀ {d : Char}, c.toNat ≠ d.toNat → c ≠ d :=
    fun other same => other (same ▸ rfl)
  by_cases special : c = quotation ∨ c = backslash
  · have small : c.toNat < 128 := by rcases special with rfl | rfl <;> decide
    refine short (e := c) (if_pos special) ?_ small
    rw [shortEscape, if_pos (special.elim Or.inl (fun h => Or.inr (Or.inl h)))]
  by_cases printed : 32 ≤ c.toNat ∧ c.toNat < 127
  · rw [escape, if_neg special, if_pos printed, ascii (by omega)]
    exact codePoints_plain (fun h => special (Or.inl h)) (fun h => special (Or.inr h))
      printed.1 rest
  have control : ∀ {n : Nat} {e : Char}, c.toNat = n → n < 32 → shortEscape e = some n →
      escape c = [backslash, e] →
      codePoints (escape c ++ rest) = pushAll (units c) (codePoints rest) :=
    fun same small read text => short text (same ▸ read) (by omega)
  by_cases eight : c.toNat = 8
  · exact control eight (by decide) (e := 'b') (by decide) (by
      rw [escape, if_neg special, if_neg printed, if_pos eight])
  by_cases nine : c.toNat = 9
  · exact control nine (by decide) (e := 't') (by decide) (by
      rw [escape, if_neg special, if_neg printed, if_neg eight, if_pos nine])
  by_cases ten : c.toNat = 10
  · exact control ten (by decide) (e := 'n') (by decide) (by
      rw [escape, if_neg special, if_neg printed, if_neg eight, if_neg nine, if_pos ten])
  by_cases twelve : c.toNat = 12
  · exact control twelve (by decide) (e := 'f') (by decide) (by
      rw [escape, if_neg special, if_neg printed, if_neg eight, if_neg nine, if_neg ten,
        if_pos twelve])
  by_cases thirteen : c.toNat = 13
  · exact control thirteen (by decide) (e := 'r') (by decide) (by
      rw [escape, if_neg special, if_neg printed, if_neg eight, if_neg nine, if_neg ten,
        if_neg twelve, if_pos thirteen])
  rw [escape, if_neg special, if_neg printed, if_neg eight, if_neg nine, if_neg ten,
    if_neg twelve, if_neg thirteen]
  by_cases basic : c.toNat < 0x10000
  · rw [if_pos basic, units, if_pos basic]
    exact codePoints_unicode basic rest
  · have top := toNat_lt c
    rw [if_neg basic, units, if_neg basic, List.append_assoc, codePoints_unicode (by omega),
      codePoints_unicode (by omega), ← pushAll_append]
    rfl

theorem codePoints_escapes (cs rest : List Char) :
    codePoints (cs.flatMap escape ++ quotation :: rest) = .ok (cs.flatMap units, rest) := by
  induction cs with
  | nil => rw [List.flatMap_nil, List.nil_append, codePoints_quotation, List.flatMap_nil]
  | cons c cs ih =>
    rw [List.flatMap_cons, List.append_assoc, codePoints_escape, ih, List.flatMap_cons]
    rfl

/-- No character is a surrogate. -/
theorem not_surrogate (c : Char) : ¬ High c.toNat ∧ ¬ Low c.toNat := by
  have valid : c.toNat < 0xD800 ∨ 0xDFFF < c.toNat ∧ c.toNat < 0x110000 := c.valid
  constructor <;> (rintro ⟨low, high⟩; omega)

theorem join_units (c : Char) (rest : List Nat) :
    join (units c ++ rest) = (join rest).map (c :: ·) := by
  by_cases basic : c.toNat < 0x10000
  · obtain ⟨high, low⟩ := not_surrogate c
    rw [units, if_pos basic, List.singleton_append, join.eq_def]
    simp only [if_neg high, if_neg low, Char.ofNat_toNat]
  · have top := toNat_lt c
    have high : High (0xD800 + (c.toNat - 0x10000) / 0x400) := by constructor <;> omega
    have low : Low (0xDC00 + (c.toNat - 0x10000) % 0x400) := by constructor <;> omega
    have same : 0x10000 + (0xD800 + (c.toNat - 0x10000) / 0x400 - 0xD800) * 0x400 +
        (0xDC00 + (c.toNat - 0x10000) % 0x400 - 0xDC00) = c.toNat := by omega
    rw [units, if_neg basic, List.cons_append, List.singleton_append, join, if_pos high]
    simp only [if_pos low, same, Char.ofNat_toNat]

theorem join_flatMap_units (cs : List Char) : join (cs.flatMap units) = some cs := by
  induction cs with
  | nil => rfl
  | cons c cs ih =>
    rw [List.flatMap_cons, join_units, ih]
    rfl

theorem string_append (s : String) (rest : List Char) :
    string (s.toList.flatMap escape ++ quotation :: rest) = .ok (s, rest) := by
  simp only [string, codePoints_escapes, join_flatMap_units, String.ofList_toList]

theorem stringText_append (s : String) (rest : List Char) :
    stringText s ++ rest = quotation :: (s.toList.flatMap escape ++ quotation :: rest) := by
  simp only [stringText, List.cons_append, List.append_assoc, List.nil_append]

/-! Values -/

theorem skip_cons {c : Char} (plain : isSpace c = false) (rest : List Char) :
    skip (c :: rest) = c :: rest := by
  rw [skip, List.dropWhile_cons, plain, if_neg (by decide)]

theorem skip_append {spaces : List Char} (blank : ∀ c ∈ spaces, isSpace c = true)
    (rest : List Char) : skip (spaces ++ rest) = skip rest := by
  induction spaces with
  | nil => rfl
  | cons c spaces ih =>
    rw [List.cons_append, skip, List.dropWhile_cons, blank c List.mem_cons_self, if_pos rfl]
    exact ih (fun d h => blank d (List.mem_cons_of_mem c h))

/-- How the text of a value begins. -/
structure Start (cs : List Char) : Prop where
  nonempty : cs ≠ []
  head : ∀ c ∈ cs.head?, isSpace c = false ∧ c ≠ ']' ∧ c ≠ closeBrace

theorem start_cons {c : Char} (space : isSpace c = false) (bracket : c ≠ ']')
    (brace : c ≠ closeBrace) (rest : List Char) : Start (c :: rest) where
  nonempty := List.cons_ne_nil c rest
  head := by
    intro d h
    cases h
    exact ⟨space, bracket, brace⟩

theorem start_whole {w : List Char} (shape : Whole w) (rest : List Char) : Start (w ++ rest) := by
  have digit : ∀ {c : Char}, c.isDigit = true → ∀ rest, Start (c :: rest) := by
    intro c digit rest
    refine start_cons ?_ ?_ ?_ rest
    · have bounds : 48 ≤ c.toNat := (Char.isDigit_iff_toNat.mp digit).1
      have other : ∀ d : Char, d.toNat < 48 → c ≠ d := by
        rintro d small rfl
        omega
      simp [isSpace, other ' ' (by decide), other '\t' (by decide), other '\n' (by decide),
        other '\r' (by decide)]
    · rintro rfl
      cases digit
    · rintro rfl
      cases digit
  rcases shape with natural | ⟨ds, rfl, _⟩
  · obtain ⟨c, cs, rfl, first⟩ := natural.head
    exact digit first _
  · exact start_cons (by decide) (by decide) (by decide) _

theorem Start.skip {cs : List Char} (start : Start cs) : JsonText.skip cs = cs := by
  cases cs with
  | nil => exact absurd rfl start.nonempty
  | cons c rest => exact skip_cons (start.head c rfl).1 rest

/-- Neither a string, an array nor an object begins like a literal or a number. -/
theorem value_scalar {format : FloatText F} {maxDigits fuel : Nat} {cs : List Char}
    (nonempty : cs ≠ []) (other : ∀ c ∈ cs.head?, c ≠ quotation ∧
      c ≠ '[' ∧ c ≠ openBrace) :
    value format maxDigits (fuel + 1) cs = scalar format maxDigits cs := by
  cases cs with
  | nil => exact absurd rfl nonempty
  | cons c rest =>
    obtain ⟨quote, bracket, brace⟩ := other c rfl
    rw [value, if_neg quote, if_neg bracket, if_neg brace]

theorem value_literal {format : FloatText F} {maxDigits fuel : Nat} {cs : List Char}
    {v : Value F} (listed : (cs, v) ∈ literals) (rest : List Char) :
    value format maxDigits (fuel + 1) (cs ++ rest) = .ok (v, rest) := by
  simp only [literals, List.mem_cons, Prod.mk.injEq, List.not_mem_nil, or_false] at listed
  rcases listed with ⟨rfl, rfl⟩ | ⟨rfl, rfl⟩ | ⟨rfl, rfl⟩ | ⟨rfl, rfl⟩ |
    ⟨rfl, rfl⟩ | ⟨rfl, rfl⟩ <;>
    rfl

theorem value_whole {format : FloatText F} {maxDigits fuel : Nat} {w : List Char}
    (shape : Whole w) (rest : List Char) :
    value format maxDigits (fuel + 1) (w ++ rest) = number format maxDigits (w ++ rest) := by
  have start := start_whole shape rest
  rw [value_scalar start.nonempty, scalar_whole shape]
  have digit : ∀ {c : Char}, c.isDigit = true → c ≠ quotation ∧ c ≠ '[' ∧
      c ≠ openBrace := by
    intro c digit
    refine ⟨?_, ?_, ?_⟩ <;> (rintro rfl; cases digit)
  intro c h
  rcases shape with natural | ⟨ds, rfl, _⟩
  · obtain ⟨d, cs, rfl, first⟩ := natural.head
    cases h
    exact digit first
  · cases h
    decide

theorem Ends.of_head {c : Char} (h : c.isDigit = false ∧ c ≠ '.' ∧ c ≠ 'e' ∧ c ≠ 'E')
    (rest : List Char) : Ends (c :: rest) := by
  intro d same
  cases same
  exact h

namespace Value

variable {format : FloatText F} {sep : Separators} {maxDigits fuel : Nat}

theorem start_text (sep : Separators) {v : Value F} (formed : v.WellFormed format maxDigits)
    (rest : List Char) : Start (v.text format sep ++ rest) := by
  cases v with
  | null | str => exact start_cons (by decide) (by decide) (by decide) _
  | bool b => cases b <;> exact start_cons (by decide) (by decide) (by decide) _
  | int n => exact start_whole (whole_int n) rest
  | float x =>
    obtain ⟨w, f, e, text, shape, _⟩ := formed.fractional
    rw [Value.text, text, List.append_assoc]
    exact start_whole shape _
  | constant c => cases c <;> exact start_cons (by decide) (by decide) (by decide) _
  | arr items => cases items <;> exact start_cons (by decide) (by decide) (by decide) _
  | obj fields =>
    rcases fields with _ | ⟨⟨k, v⟩, more⟩ <;>
      exact start_cons (by decide) (by decide) (by decide) _

theorem length_text_pos (sep : Separators) {v : Value F}
    (formed : v.WellFormed format maxDigits) : 0 < (v.text format sep).length := by
  have start := (start_text sep formed []).nonempty
  rw [List.append_nil] at start
  exact List.length_pos_iff.mpr start

theorem ends_moreItems (vs : List (Value F)) (rest : List Char) :
    Ends (moreItems format sep vs ++ rest) := by
  cases vs with
  | nil => exact .of_head (by decide) _
  | cons v vs =>
    obtain ⟨spaces, items, _⟩ := sep.items_spaced
    rw [moreItems, items]
    exact .of_head (by decide) _

theorem ends_moreFields (fs : List (String × Value F)) (rest : List Char) :
    Ends (moreFields format sep fs ++ rest) := by
  rcases fs with _ | ⟨⟨k, v⟩, fs⟩
  · exact .of_head (by decide) _
  · obtain ⟨spaces, items, _⟩ := sep.items_spaced
    rw [moreFields, items]
    exact .of_head (by decide) _

/-- Distinct keys are assigned one after the other. -/
theorem toDict_distinct {fields : List (String × Value F)}
    (distinct : (fields.map Prod.fst).Nodup) : toDict fields = fields := by
  have go : ∀ done : List (String × Value F), ((done ++ fields).map Prod.fst).Nodup →
      fields.foldl (fun dict f => setField dict f.1 f.2) done = done ++ fields := by
    clear distinct
    induction fields with
    | nil => exact fun done _ => (List.append_nil done).symm
    | cons f fields ih =>
      intro done distinct
      have fresh : f.1 ∉ done.map Prod.fst := by
        intro listed
        rw [List.map_append, List.nodup_append] at distinct
        exact distinct.2.2 f.1 listed f.1 (List.mem_cons_self) rfl
      rw [List.foldl_cons, setField, if_neg fresh, ih (done ++ [(f.1, f.2)])]
      · rw [List.append_assoc]
        rfl
      · rw [List.append_assoc]
        exact distinct
  have all := go [] distinct
  exact all

mutual

/-- A value is read back from its text, and the reader goes on behind it. -/
theorem value_text (positive : 0 < maxDigits) : ∀ (v : Value F) {fuel : Nat} {rest : List Char},
    v.WellFormed format maxDigits → 2 * (v.text format sep).length < fuel → Ends rest →
    value format maxDigits fuel (v.text format sep ++ rest) = .ok (v, rest)
  | _, 0, _, _, enough, _ => absurd enough (Nat.not_lt_zero _)
  | .null, _ + 1, rest, _, _, _ => value_literal (by simp [literals, Value.text]) rest
  | .bool true, _ + 1, rest, _, _, _ => value_literal (by simp [literals, Value.text]) rest
  | .bool false, _ + 1, rest, _, _, _ => value_literal (by simp [literals, Value.text]) rest
  | .constant .nan, _ + 1, rest, _, _, _ => value_literal (by simp [literals, Value.text]) rest
  | .constant .infinity, _ + 1, rest, _, _, _ => value_literal (by simp [literals, Value.text]) rest
  | .constant .minusInfinity, _ + 1, rest, _, _, _ =>
    value_literal (by simp [literals, Value.text]) rest
  | .int n, _ + 1, rest, short, _, ends => by
    rw [Value.text, value_whole (whole_int n), number_int positive short ends]
  | .float x, _ + 1, rest, readable, _, ends => by
    have read : number format maxDigits (format.text x ++ rest) = .ok (.float x, rest) :=
      number_float readable ends
    obtain ⟨w, f, e, text, shape, _⟩ := readable.fractional
    rw [text, List.append_assoc] at read
    rw [Value.text, text, List.append_assoc, value_whole shape, read]
  | .str s, _ + 1, rest, _, _, _ => by
    rw [Value.text, stringText_append, value, if_pos rfl, string_append]
    rfl
  | .arr [], _ + 1, rest, _, _, _ => by
    have other : '[' ≠ quotation := by decide
    simp only [Value.text, List.cons_append, value, if_neg other, if_true,
      skip_cons (c := ']') (by decide), List.head?_cons, List.tail_cons, List.nil_append]
  | .arr (v :: vs), fuel + 1, rest, formed, enough, _ => by
    rw [Value.text, List.length_cons] at enough
    have start := start_text sep formed.1 (moreItems format sep vs ++ rest)
    have open_ : (v.text format sep ++ (moreItems format sep vs ++ rest)).head? ≠ some ']' :=
      fun same => (start.head _ same).2.1 rfl
    rw [Value.text, List.cons_append, value, if_neg (by decide), if_pos rfl, List.append_assoc,
      start.skip, if_neg open_, items_text positive v vs formed (by omega)]
    rfl
  | .obj [], _ + 1, rest, _, _, _ => by
    have other : openBrace ≠ quotation := by decide
    have other' : openBrace ≠ '[' := by decide
    simp only [Value.text, List.cons_append, value, if_neg other, if_neg other', if_true,
      skip_cons (c := closeBrace) (by decide), List.head?_cons, List.tail_cons, List.nil_append]
  | .obj ((k, v) :: fs), fuel + 1, rest, formed, enough, _ => by
    rw [Value.text, List.length_cons] at enough
    have quote : ∀ cs, skip (stringText k ++ cs) = stringText k ++ cs :=
      fun cs => skip_cons (by decide) _
    have open_ : ∀ cs, (stringText k ++ cs).head? ≠ some closeBrace := by
      intro cs same
      cases same
    rw [Value.text, List.cons_append, value, if_neg (by decide), if_neg (by decide), if_pos rfl,
      List.append_assoc, quote, if_neg (open_ _), List.append_assoc, List.append_assoc,
      fields_text positive k v fs formed.2 (by simp only [List.length_append] at enough ⊢; omega)]
    simp only [Except.map, toDict_distinct formed.1]

theorem items_text (positive : 0 < maxDigits) :
    ∀ (v : Value F) (vs : List (Value F)) {fuel : Nat} {rest : List Char},
    ItemsWellFormed format maxDigits (v :: vs) →
    2 * (v.text format sep ++ moreItems format sep vs).length + 1 < fuel →
    items format maxDigits fuel (v.text format sep ++ (moreItems format sep vs ++ rest)) =
      .ok (v :: vs, rest)
  | _, _, 0, _, _, enough => absurd enough (Nat.not_lt_zero _)
  | v, [], fuel + 1, rest, formed, enough => by
    rw [List.length_append] at enough
    rw [items, value_text positive v formed.1 (by omega) (ends_moreItems [] rest), moreItems,
      List.cons_append]
    simp only [skip_cons (c := ']') (by decide), List.head?_cons, if_true, List.tail_cons,
      List.nil_append]
  | v, w :: ws, fuel + 1, rest, formed, enough => by
    obtain ⟨spaces, separator, blank⟩ := sep.items_spaced
    have longer := length_text_pos sep formed.1
    have start := start_text sep formed.2.1 (moreItems format sep ws ++ rest)
    rw [moreItems, separator] at enough
    simp only [List.length_append, List.length_cons] at enough
    rw [items, value_text positive v formed.1 (by omega) (ends_moreItems (w :: ws) rest), moreItems,
      separator]
    have other : (some ',' : Option Char) ≠ some ']' := by decide
    simp only [List.cons_append, skip_cons (c := ',') (by decide), List.head?_cons, if_neg other,
      if_true, List.tail_cons, List.append_assoc, skip_append blank, start.skip]
    rw [items_text positive w ws formed.2 (by rw [List.length_append]; omega)]
    rfl

theorem fields_text (positive : 0 < maxDigits) :
    ∀ (k : String) (v : Value F) (fs : List (String × Value F)) {fuel : Nat} {rest : List Char},
    FieldsWellFormed format maxDigits ((k, v) :: fs) →
    2 * (stringText k ++ (sep.keys ++
      (v.text format sep ++ moreFields format sep fs))).length + 1 < fuel →
    fields format maxDigits fuel (stringText k ++ (sep.keys ++
      (v.text format sep ++ (moreFields format sep fs ++ rest)))) = .ok ((k, v) :: fs, rest)
  | _, _, _, 0, _, _, enough => absurd enough (Nat.not_lt_zero _)
  | k, v, fs, fuel + 1, rest, formed, enough => by
    obtain ⟨blanks, colon, blank'⟩ := sep.keys_spaced
    have keyed : (some quotation : Option Char) = some quotation := rfl
    have longer := length_text_pos sep formed.1
    have startValue := start_text sep formed.1 (moreFields format sep fs ++ rest)
    rw [colon] at enough ⊢
    simp only [List.length_append, List.length_cons] at enough
    rw [fields, stringText_append]
    simp only [List.head?_cons, ne_eq, not_true_eq_false, if_false, List.tail_cons, string_append,
      List.cons_append, skip_cons (c := ':') (by decide), skip_append blank', startValue.skip]
    rw [value_text positive v formed.1 (by omega) (ends_moreFields fs rest)]
    match fs, formed, enough with
    | [], _, _ =>
      simp only [moreFields, List.cons_append, skip_cons (c := closeBrace) (by decide),
        List.head?_cons, if_true, List.tail_cons, List.nil_append]
    | (k', w) :: fs, formed, enough =>
      obtain ⟨spaces, separator, blank⟩ := sep.items_spaced
      have other : (some ',' : Option Char) ≠ some closeBrace := by decide
      have quote : ∀ cs, skip (stringText k' ++ cs) = stringText k' ++ cs :=
        fun cs => skip_cons (by decide) _
      rw [moreFields, separator] at enough ⊢
      simp only [List.length_append, List.length_cons] at enough
      simp only [List.cons_append, skip_cons (c := ',') (by decide), List.head?_cons, if_neg other,
        if_true, List.tail_cons, List.append_assoc, skip_append blank, quote]
      rw [fields_text positive k' w fs formed.2 (by simp only [List.length_append]; omega)]
      rfl

end

/-- What is written is read. -/
theorem loads_text (positive : 0 < maxDigits) {v : Value F}
    (formed : v.WellFormed format maxDigits) :
    loads format maxDigits (v.text format sep) = .ok v := by
  have start := start_text sep formed []
  rw [List.append_nil] at start
  have read : value format maxDigits (2 * (v.text format sep).length + 1)
      (v.text format sep ++ []) = .ok (v, []) :=
    value_text positive v formed (Nat.lt_succ_self _) ends_nil
  rw [List.append_nil] at read
  rw [loads, start.skip, read]
  rfl

end Value

/-! The reader does not ask how floats are written -/

section

variable {format format' : FloatText F} {maxDigits : Nat}

theorem scalar_of_read (same : format.read = format'.read) (cs : List Char) :
    scalar format maxDigits cs = scalar format' maxDigits cs := by
  unfold scalar number
  rw [same]

theorem value_of_read (same : format.read = format'.read) (fuel : Nat) :
    value format maxDigits fuel = value format' maxDigits fuel ∧
      items format maxDigits fuel = items format' maxDigits fuel ∧
      fields format maxDigits fuel = fields format' maxDigits fuel := by
  induction fuel with
  | zero => exact ⟨rfl, rfl, rfl⟩
  | succ fuel ih =>
    obtain ⟨values, lists, objects⟩ := ih
    refine ⟨funext (fun cs => ?_), funext (fun cs => ?_), funext (fun cs => ?_)⟩
    · cases cs with
      | nil => rfl
      | cons c rest => simp only [value, lists, objects, scalar_of_read same]
    · simp only [items, values, lists]
    · simp only [fields, values, objects]

theorem loads_of_read (same : format.read = format'.read) (cs : List Char) :
    loads format maxDigits cs = loads format' maxDigits cs := by
  unfold loads
  rw [(value_of_read same _).1]

end

end JsonText
