import Relay.Delivery.Retry
import Relay.Lib.JsonText
import Relay.Text

/-!
# Values that are stored as JSON

What tools return, as Python values, and `_jsonable`: a value that `json.dumps`
takes stays as it is, of any other the parts are replaced by their texts. Both
recurse into a value, as deep as the interpreter lets them.
-/

namespace Relay.Agent

open Retry
open JsonText (quotation backslash)

/-- A Python value; an object that `json` cannot encode is known by its two texts. -/
inductive PyValue where
  | none
  | bool (b : Bool)
  | int (n : Int)
  | float (x : PyFloat)
  | str (s : String)
  | list (items : List PyValue)
  | dict (fields : List (String × PyValue))
  | object (str repr : String)

/-- What `repr` needs to know beside the value: the characters beyond ASCII that
are printed as they are, and the texts of finite floats. -/
structure Printing where
  printable : Char → Bool
  finite : ℚ → String
  finite_plain : ∀ q, nul ∉ (finite q).toList

namespace PyValue

mutual

/-- The values inside that are neither lists nor dicts. -/
def leaves : PyValue → List PyValue
  | .list items => leavesOfItems items
  | .dict fields => leavesOfFields fields
  | v => [v]

def leavesOfItems : List PyValue → List PyValue
  | [] => []
  | v :: rest => v.leaves ++ leavesOfItems rest

def leavesOfFields : List (String × PyValue) → List PyValue
  | [] => []
  | (_, v) :: rest => v.leaves ++ leavesOfFields rest

end

mutual

/-- The keys of all dicts inside. -/
def keys : PyValue → List String
  | .list items => keysOfItems items
  | .dict fields => keysOfFields fields
  | _ => []

def keysOfItems : List PyValue → List String
  | [] => []
  | v :: rest => v.keys ++ keysOfItems rest

def keysOfFields : List (String × PyValue) → List String
  | [] => []
  | (k, v) :: rest => k :: v.keys ++ keysOfFields rest

end

/-- Not an integer that is too long to print. -/
def Short : PyValue → Prop
  | .int n => Printable n
  | _ => True

instance : ∀ v : PyValue, Decidable v.Short
  | .int n => inferInstanceAs (Decidable (Printable n))
  | .none | .bool _ | .float _ | .str _ | .list _ | .dict _ | .object _ _ => isTrue trivial

/-- The text of an integer, up to the text. -/
def showsInt (n : Int) : Except Raised Unit :=
  if Printable n then .ok () else .error .valueError

theorem showsInt_ok {n : Int} : showsInt n = .ok () ↔ Printable n := by
  unfold showsInt
  by_cases printable : Printable n
  · rw [if_pos printable]
    exact iff_of_true rfl printable
  · rw [if_neg printable]
    exact iff_of_false (by rintro ⟨⟩) printable

mutual

/-- `json.dumps(value)` up to its text: it recurses into containers, and raises at the
first value that it cannot encode. -/
def dumps : Nat → PyValue → Except Raised Unit
  | depth + 1, .list items => dumpsItems depth items
  | depth + 1, .dict fields => dumpsFields depth fields
  | 0, .list _ | 0, .dict _ => .error .recursionError
  | _, .object _ _ => .error .typeError
  | _, .int n => showsInt n
  | _, .none | _, .bool _ | _, .float _ | _, .str _ => .ok ()

def dumpsItems (depth : Nat) : List PyValue → Except Raised Unit
  | [] => .ok ()
  | v :: rest => do
    v.dumps depth
    dumpsItems depth rest

def dumpsFields (depth : Nat) : List (String × PyValue) → Except Raised Unit
  | [] => .ok ()
  | (_, v) :: rest => do
    v.dumps depth
    dumpsFields depth rest

end

theorem dumps_str (depth : Nat) (s : String) : (str s).dumps depth = .ok () := by
  cases depth <;> rfl

/-- JSONB takes what the leaf is encoded as. -/
def Accepted : PyValue → Prop
  | .float (.finite _) => True
  | .float _ => False
  | .str s => nul ∉ s.toList
  | _ => True

/-- Postgres stores the text of `json.dumps(value)`: there is one, without a token
for nan or an infinity and without U+0000 in a string or a key. -/
structure Storable (depth : Nat) (v : PyValue) : Prop where
  dumps : v.dumps depth = .ok ()
  leaves : ∀ x ∈ v.leaves, x.Accepted
  keys : ∀ k ∈ v.keys, nul ∉ k.toList

end PyValue

/-! Texts of values -/

def apostrophe : Char := Char.ofNat 39

/-- One character inside `repr` of a string. -/
def escape (p : Printing) (quote c : Char) : List Char :=
  if c = quote ∨ c = backslash then [backslash, c]
  else if c = Char.ofNat 9 then [backslash, 't']
  else if c = Char.ofNat 10 then [backslash, 'n']
  else if c = Char.ofNat 13 then [backslash, 'r']
  else if c.toNat < 32 ∨ c.toNat = 127 then backslash :: 'x' :: Digits.hex 2 c.toNat
  else if c.toNat < 127 ∨ p.printable c then [c]
  else if c.toNat < 0x100 then backslash :: 'x' :: Digits.hex 2 c.toNat
  else if c.toNat < 0x10000 then backslash :: 'u' :: Digits.hex 4 c.toNat
  else backslash :: 'U' :: Digits.hex 8 c.toNat

def reprString (p : Printing) (s : String) : List Char :=
  let quote := if apostrophe ∈ s.toList ∧ quotation ∉ s.toList then quotation else apostrophe
  quote :: s.toList.flatMap (escape p quote) ++ [quote]

def floatText (p : Printing) : PyFloat → List Char
  | .finite q => (p.finite q).toList
  | .posInf => ['i', 'n', 'f']
  | .negInf => ['-', 'i', 'n', 'f']
  | .nan => ['n', 'a', 'n']

namespace PyValue

mutual

/-- The characters of `repr(value)`. -/
def reprChars (p : Printing) : PyValue → List Char
  | .none => ['N', 'o', 'n', 'e']
  | .bool true => ['T', 'r', 'u', 'e']
  | .bool false => ['F', 'a', 'l', 's', 'e']
  | .int n => (toString n).toList
  | .float x => floatText p x
  | .str s => reprString p s
  | .list items => '[' :: [',', ' '].intercalate (reprItems p items) ++ [']']
  | .dict fields =>
    Char.ofNat 123 :: [',', ' '].intercalate (reprFields p fields) ++ [Char.ofNat 125]
  | .object _ text => text.toList

def reprItems (p : Printing) : List PyValue → List (List Char)
  | [] => []
  | v :: rest => v.reprChars p :: reprItems p rest

def reprFields (p : Printing) : List (String × PyValue) → List (List Char)
  | [] => []
  | (k, v) :: rest => (reprString p k ++ [':', ' '] ++ v.reprChars p) :: reprFields p rest

end

mutual

/-- `repr(value)` up to its text: it recurses into every value inside, a key included. -/
def shows : Nat → PyValue → Except Raised Unit
  | 0, _ => .error .recursionError
  | depth + 1, .list items => showsItems depth items
  | depth + 1, .dict fields => showsFields depth fields
  | _ + 1, .int n => showsInt n
  | _ + 1, .none | _ + 1, .bool _ | _ + 1, .float _ | _ + 1, .str _ | _ + 1, .object _ _ => .ok ()

def showsItems (depth : Nat) : List PyValue → Except Raised Unit
  | [] => .ok ()
  | v :: rest => do
    v.shows depth
    showsItems depth rest

def showsFields (depth : Nat) : List (String × PyValue) → Except Raised Unit
  | [] => .ok ()
  | (_, v) :: rest => do
    v.shows depth
    showsFields depth rest

end

/-- `repr(value)`. -/
def repr (p : Printing) (depth : Nat) (v : PyValue) : Except Raised String := do
  v.shows depth
  return String.ofList (v.reprChars p)

end PyValue

end Relay.Agent
