import Relay.Lib.Digits
import Mathlib.Data.List.Sort
import Mathlib.Data.String.Basic
import Mathlib.Tactic.Common

/-!
# JSON texts

Values with ordered fields, their texts in ASCII, and a reader. Numbers with a
fraction or an exponent are written and read by a format, a parameter; integers
have at most a given number of digits. The reader takes what Python's `json`
takes: also the constants beyond JSON, and of fields with one name the last.
-/

namespace JsonText

/-! Values -/

/-- Floats that are no number. -/
inductive Constant where
  | nan
  | infinity
  | minusInfinity
  deriving DecidableEq

inductive Value (F : Type) where
  | null
  | bool (b : Bool)
  | int (n : Int)
  | float (x : F)
  | constant (c : Constant)
  | str (s : String)
  | arr (items : List (Value F))
  | obj (fields : List (String × Value F))

/-! Number texts -/

/-- Digits without a leading zero. -/
def Natural (cs : List Char) : Prop :=
  cs = ['0'] ∨ ∃ c ds, cs = c :: ds ∧ c ≠ '0' ∧ ∀ d ∈ c :: ds, d.isDigit = true

def Whole (cs : List Char) : Prop := Natural cs ∨ ∃ ds, cs = '-' :: ds ∧ Natural ds

def Fraction (cs : List Char) : Prop :=
  cs = [] ∨ ∃ ds, cs = '.' :: ds ∧ ds ≠ [] ∧ ∀ d ∈ ds, d.isDigit = true

def Exponent (cs : List Char) : Prop :=
  cs = [] ∨ ∃ e sign ds, cs = e :: (sign ++ ds) ∧ (e = 'e' ∨ e = 'E') ∧
    (sign = [] ∨ sign = ['+'] ∨ sign = ['-']) ∧ ds ≠ [] ∧ ∀ d ∈ ds, d.isDigit = true

/-- How finite floats are written and read. A text too large for a finite float
is read as `none`. -/
structure FloatText (F : Type) where
  text : F → List Char
  read : List Char → Option F

/-- The text is a number with a fraction or an exponent, and this float is read from it. -/
structure FloatText.Readable {F : Type} (format : FloatText F) (x : F) : Prop where
  fractional : ∃ whole fraction exponent, format.text x = whole ++ (fraction ++ exponent) ∧
    Whole whole ∧ Fraction fraction ∧ Exponent exponent ∧ fraction ++ exponent ≠ []
  read_text : format.read (format.text x) = some x

/-- A way to write floats that loses nothing. -/
structure FloatFormat (F : Type) extends FloatText F where
  readable : ∀ x, toFloatText.Readable x

/-! Writing -/

def quotation : Char := Char.ofNat 34
def backslash : Char := Char.ofNat 92
def openBrace : Char := Char.ofNat 123
def closeBrace : Char := Char.ofNat 125

def isSpace (c : Char) : Bool := c = ' ' || c = '\t' || c = '\n' || c = '\r'

/-- What stands between items, and between a key and its value. -/
structure Separators where
  items : List Char
  keys : List Char
  items_spaced : ∃ spaces, items = ',' :: spaces ∧ ∀ c ∈ spaces, isSpace c = true
  keys_spaced : ∃ spaces, keys = ':' :: spaces ∧ ∀ c ∈ spaces, isSpace c = true

/-- `(",", ":")`. -/
def compact : Separators :=
  ⟨[','], [':'], ⟨[], rfl, fun _ h => absurd h List.not_mem_nil⟩,
    ⟨[], rfl, fun _ h => absurd h List.not_mem_nil⟩⟩

/-- `(", ", ": ")`. -/
def spaced : Separators :=
  ⟨[',', ' '], [':', ' '], ⟨[' '], rfl, fun _ h => List.mem_singleton.mp h ▸ rfl⟩,
    ⟨[' '], rfl, fun _ h => List.mem_singleton.mp h ▸ rfl⟩⟩

def unicodeEscape (n : Nat) : List Char := backslash :: 'u' :: Digits.hex 4 n

/-- A character inside a string; beyond the basic plane as two surrogates. -/
def escape (c : Char) : List Char :=
  if c = quotation ∨ c = backslash then [backslash, c]
  else if 32 ≤ c.toNat ∧ c.toNat < 127 then [c]
  else if c.toNat = 8 then [backslash, 'b']
  else if c.toNat = 9 then [backslash, 't']
  else if c.toNat = 10 then [backslash, 'n']
  else if c.toNat = 12 then [backslash, 'f']
  else if c.toNat = 13 then [backslash, 'r']
  else if c.toNat < 0x10000 then unicodeEscape c.toNat
  else unicodeEscape (0xD800 + (c.toNat - 0x10000) / 0x400) ++
    unicodeEscape (0xDC00 + (c.toNat - 0x10000) % 0x400)

def stringText (s : String) : List Char := quotation :: s.toList.flatMap escape ++ [quotation]

def Constant.text : Constant → List Char
  | .nan => ['N', 'a', 'N']
  | .infinity => ['I', 'n', 'f', 'i', 'n', 'i', 't', 'y']
  | .minusInfinity => ['-', 'I', 'n', 'f', 'i', 'n', 'i', 't', 'y']

namespace Value

variable {F : Type}

mutual

def text (format : FloatText F) (sep : Separators) : Value F → List Char
  | .null => ['n', 'u', 'l', 'l']
  | .bool true => ['t', 'r', 'u', 'e']
  | .bool false => ['f', 'a', 'l', 's', 'e']
  | .int n => (toString n).toList
  | .float x => format.text x
  | .constant c => c.text
  | .str s => stringText s
  | .arr [] => ['[', ']']
  | .arr (v :: rest) => '[' :: (text format sep v ++ moreItems format sep rest)
  | .obj [] => [openBrace, closeBrace]
  | .obj ((k, v) :: rest) =>
    openBrace :: (stringText k ++ (sep.keys ++ (text format sep v ++ moreFields format sep rest)))

/-- The items after the first, and the closing bracket. -/
def moreItems (format : FloatText F) (sep : Separators) : List (Value F) → List Char
  | [] => [']']
  | v :: rest => sep.items ++ (text format sep v ++ moreItems format sep rest)

def moreFields (format : FloatText F) (sep : Separators) : List (String × Value F) → List Char
  | [] => [closeBrace]
  | (k, v) :: rest => sep.items ++ (stringText k ++ (sep.keys ++
      (text format sep v ++ moreFields format sep rest)))

end

/-! Order of fields -/

def byKey (fields : List (String × Value F)) : List (String × Value F) :=
  fields.insertionSort (fun a b => a.1 ≤ b.1)

mutual

/-- The value with the fields of every object in the order of their keys. -/
def sortKeys : Value F → Value F
  | .arr items => .arr (sortItems items)
  | .obj fields => .obj (byKey (sortFields fields))
  | v => v

def sortItems : List (Value F) → List (Value F)
  | [] => []
  | v :: rest => sortKeys v :: sortItems rest

def sortFields : List (String × Value F) → List (String × Value F)
  | [] => []
  | (k, v) :: rest => (k, sortKeys v) :: sortFields rest

end

/-- `json.dumps` in ASCII, with or without `sort_keys`. -/
def dumps (format : FloatText F) (sep : Separators) (sort : Bool) (v : Value F) : List Char :=
  text format sep (if sort then v.sortKeys else v)

mutual

/-- The keys of every object differ. -/
def Distinct : Value F → Prop
  | .arr items => ItemsDistinct items
  | .obj fields => (fields.map Prod.fst).Nodup ∧ FieldsDistinct fields
  | _ => True

def ItemsDistinct : List (Value F) → Prop
  | [] => True
  | v :: rest => Distinct v ∧ ItemsDistinct rest

def FieldsDistinct : List (String × Value F) → Prop
  | [] => True
  | (_, v) :: rest => Distinct v ∧ FieldsDistinct rest

end

mutual

/-- The integers inside. -/
def ints : Value F → List Int
  | .int n => [n]
  | .arr items => intsOfItems items
  | .obj fields => intsOfFields fields
  | _ => []

def intsOfItems : List (Value F) → List Int
  | [] => []
  | v :: rest => ints v ++ intsOfItems rest

def intsOfFields : List (String × Value F) → List Int
  | [] => []
  | (_, v) :: rest => ints v ++ intsOfFields rest

end

mutual

/-- The keys of every object differ, and every number can be read again. -/
def WellFormed (format : FloatText F) (maxDigits : Nat) : Value F → Prop
  | .int n => n.natAbs < 10 ^ maxDigits
  | .float x => format.Readable x
  | .arr items => ItemsWellFormed format maxDigits items
  | .obj fields => (fields.map Prod.fst).Nodup ∧ FieldsWellFormed format maxDigits fields
  | _ => True

def ItemsWellFormed (format : FloatText F) (maxDigits : Nat) : List (Value F) → Prop
  | [] => True
  | v :: rest => WellFormed format maxDigits v ∧ ItemsWellFormed format maxDigits rest

def FieldsWellFormed (format : FloatText F) (maxDigits : Nat) : List (String × Value F) → Prop
  | [] => True
  | (_, v) :: rest => WellFormed format maxDigits v ∧ FieldsWellFormed format maxDigits rest

end

end Value

/-! Reading -/

inductive ReadError where
  /-- Not JSON. -/
  | malformed
  /-- An integer of too many digits. -/
  | tooLong
  /-- A surrogate that is not one of a pair: the text is JSON, its string no text. -/
  | surrogate
  /-- The reader gave up; `loads_ne_exhausted` says it never does. -/
  | exhausted
  deriving DecidableEq

def skip (cs : List Char) : List Char := cs.dropWhile isSpace

/-- The character that a backslash and this one stand for. -/
def shortEscape (c : Char) : Option Nat :=
  if c = quotation ∨ c = backslash ∨ c = '/' then some c.toNat
  else if c = 'b' then some 8
  else if c = 'f' then some 12
  else if c = 'n' then some 10
  else if c = 'r' then some 13
  else if c = 't' then some 9
  else none

def hexDigit (c : Char) : Option Nat :=
  if c.isDigit then some (c.toNat - 48)
  else if 'a' ≤ c ∧ c ≤ 'f' then some (c.toNat - 87)
  else if 'A' ≤ c ∧ c ≤ 'F' then some (c.toNat - 55)
  else none

def hexValue (a b c d : Char) : Option Nat :=
  match hexDigit a, hexDigit b, hexDigit c, hexDigit d with
  | some a, some b, some c, some d => some (((a * 16 + b) * 16 + c) * 16 + d)
  | _, _, _, _ => none

/-- One code point more, in front. -/
def push {A : Type} (a : A) : Except ReadError (List A × List Char) →
    Except ReadError (List A × List Char) :=
  Except.map (fun p => (a :: p.1, p.2))

/-- The code points, surrogates among them, up to the closing quotation mark. -/
def codePoints : List Char → Except ReadError (List Nat × List Char)
  | [] => .error .malformed
  | c :: rest =>
    if c = quotation then .ok ([], rest)
    else if c = backslash then
      match rest with
      | [] => .error .malformed
      | e :: rest =>
        match shortEscape e with
        | some n => push n (codePoints rest)
        | none =>
          if e = 'u' then
            match rest with
            | a :: b :: c :: d :: rest =>
              match hexValue a b c d with
              | some n => push n (codePoints rest)
              | none => .error .malformed
            | _ => .error .malformed
          else .error .malformed
    else if c.toNat < 32 then .error .malformed
    else push c.toNat (codePoints rest)

def High (n : Nat) : Prop := 0xD800 ≤ n ∧ n < 0xDC00
def Low (n : Nat) : Prop := 0xDC00 ≤ n ∧ n < 0xE000

instance (n : Nat) : Decidable (High n) := inferInstanceAs (Decidable (_ ∧ _))
instance (n : Nat) : Decidable (Low n) := inferInstanceAs (Decidable (_ ∧ _))

/-- Two surrogates in a row are one character. -/
def join : List Nat → Option (List Char)
  | [] => some []
  | n :: rest =>
    if High n then
      match rest with
      | m :: rest =>
        if Low m then
          (join rest).map (Char.ofNat (0x10000 + (n - 0xD800) * 0x400 + (m - 0xDC00)) :: ·)
        else none
      | [] => none
    else if Low n then none
    else (join rest).map (Char.ofNat n :: ·)

/-- A string after its opening quotation mark. -/
def string (cs : List Char) : Except ReadError (String × List Char) :=
  match codePoints cs with
  | .error e => .error e
  | .ok (ns, rest) =>
    match join ns with
    | none => .error .surrogate
    | some text => .ok (String.ofList text, rest)

def natural : List Char → Option (List Char × List Char)
  | [] => none
  | c :: rest =>
    if c = '0' then some (['0'], rest)
    else if c.isDigit then
      some (c :: rest.takeWhile Char.isDigit, rest.dropWhile Char.isDigit)
    else none

def whole : List Char → Option (List Char × List Char)
  | [] => none
  | c :: rest =>
    if c = '-' then (natural rest).map (fun p => ('-' :: p.1, p.2)) else natural (c :: rest)

def fraction : List Char → List Char × List Char
  | [] => ([], [])
  | c :: rest =>
    if c = '.' ∧ rest.takeWhile Char.isDigit ≠ [] then
      ('.' :: rest.takeWhile Char.isDigit, rest.dropWhile Char.isDigit)
    else ([], c :: rest)

def sign : List Char → List Char × List Char
  | [] => ([], [])
  | c :: rest => if c = '+' ∨ c = '-' then ([c], rest) else ([], c :: rest)

def exponent : List Char → List Char × List Char
  | [] => ([], [])
  | c :: rest =>
    let signed := sign rest
    if (c = 'e' ∨ c = 'E') ∧ signed.2.takeWhile Char.isDigit ≠ [] then
      (c :: (signed.1 ++ signed.2.takeWhile Char.isDigit), signed.2.dropWhile Char.isDigit)
    else ([], c :: rest)

def intValue : List Char → Int
  | [] => 0
  | c :: ds =>
    if c = '-' then -(Nat.ofDigitChars 10 ds 0 : Int) else Nat.ofDigitChars 10 (c :: ds) 0

/-- The digits of a whole part. -/
def digitsOf (cs : List Char) : List Char := cs.dropWhile (· = '-')

def isMinus : List Char → Bool
  | [] => false
  | c :: _ => c = '-'

variable {F : Type}

def number (format : FloatText F) (maxDigits : Nat) (cs : List Char) :
    Except ReadError (Value F × List Char) :=
  match whole cs with
  | none => .error .malformed
  | some (w, rest) =>
    let f := fraction rest
    let e := exponent f.2
    if f.1 ++ e.1 = [] then
      if maxDigits < (digitsOf w).length then .error .tooLong else .ok (.int (intValue w), e.2)
    else
      match format.read (w ++ (f.1 ++ e.1)) with
      | some x => .ok (.float x, e.2)
      | none => .ok (.constant (if isMinus w then .minusInfinity else .infinity), e.2)

def literals : List (List Char × Value F) :=
  [(['n', 'u', 'l', 'l'], .null), (['t', 'r', 'u', 'e'], .bool true),
    (['f', 'a', 'l', 's', 'e'], .bool false), (Constant.nan.text, .constant .nan),
    (Constant.infinity.text, .constant .infinity),
    (Constant.minusInfinity.text, .constant .minusInfinity)]

/-- A literal or a number. -/
def scalar (format : FloatText F) (maxDigits : Nat) (cs : List Char) :
    Except ReadError (Value F × List Char) :=
  match literals.findSome? (fun p => (p.1.isPrefixOf? cs).map (fun rest => (p.2, rest))) with
  | some found => .ok found
  | none => number format maxDigits cs

/-- Assignment to a dict. -/
def setField (fields : List (String × Value F)) (k : String) (v : Value F) :
    List (String × Value F) :=
  if k ∈ fields.map Prod.fst then fields.map (fun f => if f.1 = k then (k, v) else f)
  else fields ++ [(k, v)]

def toDict (fields : List (String × Value F)) : List (String × Value F) :=
  fields.foldl (fun dict f => setField dict f.1 f.2) []

mutual

/-- A value that begins here. The first argument bounds the recursion. -/
def value (format : FloatText F) (maxDigits : Nat) : Nat → List Char →
    Except ReadError (Value F × List Char)
  | 0, _ => .error .exhausted
  | _ + 1, [] => .error .malformed
  | fuel + 1, c :: rest =>
    if c = quotation then (string rest).map (fun p => (.str p.1, p.2))
    else if c = '[' then
      if (skip rest).head? = some ']' then .ok (.arr [], (skip rest).tail)
      else (items format maxDigits fuel (skip rest)).map (fun p => (.arr p.1, p.2))
    else if c = openBrace then
      if (skip rest).head? = some closeBrace then .ok (.obj [], (skip rest).tail)
      else (fields format maxDigits fuel (skip rest)).map (fun p => (.obj (toDict p.1), p.2))
    else scalar format maxDigits (c :: rest)

/-- Items up to the closing bracket. -/
def items (format : FloatText F) (maxDigits : Nat) : Nat → List Char →
    Except ReadError (List (Value F) × List Char)
  | 0, _ => .error .exhausted
  | fuel + 1, cs =>
    match value format maxDigits fuel cs with
    | .error e => .error e
    | .ok (v, rest) =>
      if (skip rest).head? = some ']' then .ok ([v], (skip rest).tail)
      else if (skip rest).head? = some ',' then
        push v (items format maxDigits fuel (skip (skip rest).tail))
      else .error .malformed

/-- Fields up to the closing brace. -/
def fields (format : FloatText F) (maxDigits : Nat) : Nat → List Char →
    Except ReadError (List (String × Value F) × List Char)
  | 0, _ => .error .exhausted
  | fuel + 1, cs =>
    if cs.head? ≠ some quotation then .error .malformed
    else
      match string cs.tail with
      | .error e => .error e
      | .ok (k, rest) =>
        if (skip rest).head? ≠ some ':' then .error .malformed
        else
          match value format maxDigits fuel (skip (skip rest).tail) with
          | .error e => .error e
          | .ok (v, rest) =>
            if (skip rest).head? = some closeBrace then .ok ([(k, v)], (skip rest).tail)
            else if (skip rest).head? = some ',' then
              push (k, v) (fields format maxDigits fuel (skip (skip rest).tail))
            else .error .malformed

end

/-- `json.loads`. -/
def loads (format : FloatText F) (maxDigits : Nat) (cs : List Char) :
    Except ReadError (Value F) :=
  match value format maxDigits (2 * cs.length + 1) (skip cs) with
  | .error e => .error e
  | .ok (v, rest) => if skip rest = [] then .ok v else .error .malformed

end JsonText
