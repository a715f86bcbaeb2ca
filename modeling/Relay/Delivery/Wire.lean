import Relay.Agent.Tools
import Relay.Delivery.Signing
import Relay.Lib.JsonOrder

/-!
# Payloads on the wire

The body of a delivery, and the reference receiver. A payload is a Python dict
of strings without lone surrogates, which is what JSONB gives back. How finite
floats are written and read is a parameter.
-/

namespace Relay.Wire

open JsonText Signing

variable {F : Type}

structure Payload (F : Type) where
  fields : List (String × Value F)
  distinct : (Value.obj fields).Distinct

namespace Payload

def value (p : Payload F) : Value F := .obj p.fields

/-- Python turns every integer of the payload into a text. -/
def Serializable (p : Payload F) : Prop := ∀ n ∈ p.value.ints, Printable n

instance (p : Payload F) : Decidable p.Serializable := List.decidableBAll _ _

end Payload

def serializePayload (format : FloatFormat F) (p : Payload F) : Except Raised (List UInt8) :=
  if p.Serializable then
    .ok (encode (String.ofList (p.value.dumps format.toFloatText compact true)))
  else .error .valueError

/-- `json.loads(body)` of a body in UTF-8. -/
def parseBody (format : FloatFormat F) (body : List UInt8) : Except ReadError (Value F) :=
  match body.toByteArray.utf8Decode? with
  | none => .error .malformed
  | some text => loads format.toFloatText maxStrDigits text.toList

/-- What the receiver notes of a request. -/
structure Received where
  deliveryId : Option String
  eventId : Option String
  signatureValid : Bool
  deriving DecidableEq

/-- The check of `_handle`: a `ValueError` means no. -/
def signatureValid (secret : String) (headers : List (String × String)) (body : List UInt8)
    (clock : Int) : Except Raised Bool :=
  if secret = "" then .ok false
  else
    match Agent.intOfText ((headers.lookup "Relay-Timestamp").getD "0") with
    | none => .ok false
    | some timestamp =>
      match verifySignature secret timestamp body ((headers.lookup "Relay-Signature").getD "")
          defaultToleranceSeconds none clock with
      | .error .valueError => .ok false
      | answer => answer

def received (secret : String) (headers : List (String × String)) (body : List UInt8)
    (clock : Int) : Except Raised Received := do
  let valid ← signatureValid secret headers body clock
  return ⟨headers.lookup "Relay-Id", headers.lookup "Relay-Event-Id", valid⟩

/-! Whole numbers as the only floats, for tests -/

/-- `str(float(n))` of small numbers. -/
def tenths : FloatFormat Nat where
  text n := Nat.toDigits 10 n ++ ['.', '0']
  read cs := some (Nat.ofDigitChars 10 (cs.takeWhile Char.isDigit) 0)
  readable n := by
    have digits : ∀ d ∈ Nat.toDigits 10 n, d.isDigit = true :=
      fun d h => Nat.isDigit_of_mem_toDigits (by decide) (by decide) h
    refine ⟨⟨Nat.toDigits 10 n, ['.', '0'], [], rfl, Or.inl (natural_toDigits n),
      Or.inr ⟨['0'], rfl, List.cons_ne_nil _ _, fun _ h => List.mem_singleton.mp h ▸ rfl⟩,
      Or.inl rfl, List.cons_ne_nil _ _⟩, ?_⟩
    simp only
    rw [(takeWhile_digits digits (noDigit_cons (by decide) _)).1, Nat.ofDigitChars_ten_toDigits]

/-- Keys in order, no spaces, beyond ASCII escapes. -/
example : (Value.obj [("b", .arr [.int (-3), .float 2, .null]), ("a", .str "é\n😀")]).dumps
    tenths.toFloatText compact true =
      "\x7b\"a\":\"\\u00e9\\n\\ud83d\\ude00\",\"b\":[-3,2.0,null]\x7d".toList := by
  decide +kernel

end Relay.Wire
