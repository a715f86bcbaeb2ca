import Relay.Lib.Digits
import Relay.Lib.Sha256
import Relay.Text
import Mathlib.Algebra.Order.Group.Int

/-!
# Signatures

What a delivery is signed with, and the check that the README shows to receivers.
Bodies are bytes, everything else are texts without lone surrogates.
-/

namespace Relay.Signing

def signatureVersion : String := "v1"
def defaultToleranceSeconds : Int := 300

/-- `text.encode()`. -/
def encode (text : String) : List UInt8 := text.toList.flatMap String.utf8EncodeChar

def signedPayload (timestamp : Int) (body : List UInt8) : Except Raised (List UInt8) := do
  let text ← intText timestamp
  return encode (text ++ ".") ++ body

def hmacSha256 (key message : List UInt8) : List UInt8 := hmac Sha256.sha256 64 key message

def hexdigest (digest : List UInt8) : String := String.ofList (Digits.hexBytes digest)

def computeSignature (secret : String) (timestamp : Int) (body : List UInt8) :
    Except Raised String := do
  let payload ← signedPayload timestamp body
  return signatureVersion ++ "=" ++ hexdigest (hmacSha256 (encode secret) payload)

def Ascii (text : String) : Prop := ∀ c ∈ text.toList, c.toNat < 128

instance (text : String) : Decidable (Ascii text) := List.decidableBAll _ _

/-- `hmac.compare_digest` of two texts. -/
def compareDigest (a b : String) : Except Raised Bool :=
  if Ascii a ∧ Ascii b then .ok (decide (a = b)) else .error .typeError

/-- `clock` is the present time in whole seconds, `now` what the caller passes. -/
def verifySignature (secret : String) (timestamp : Int) (body : List UInt8) (signature : String)
    (toleranceSeconds : Int) (now : Option Int) (clock : Int) : Except Raised Bool :=
  let current := now.getD clock
  if toleranceSeconds < |current - timestamp| then .ok false
  else do
    let expected ← computeSignature secret timestamp body
    compareDigest expected signature

/-- `build_headers`. -/
def buildHeaders (deliveryId eventId : Uuid) (secret : String) (body : List UInt8)
    (timestamp : Int) : Except Raised (List (String × String)) := do
  let timestampText ← intText timestamp
  let signature ← computeSignature secret timestamp body
  return [("Content-Type", "application/json"), ("User-Agent", "Relay/1.0"),
    ("Relay-Id", uuidText deliveryId), ("Relay-Event-Id", uuidText eventId),
    ("Relay-Timestamp", timestampText), ("Relay-Signature", signature)]

/-- The digest of the message `Hi There`, keyed with twenty bytes of eleven. -/
example : hexdigest (hmacSha256 (List.replicate 20 0x0b) (encode "Hi There")) =
    "b0344c61d8db38535ca8afceaf0bf12b881dc200c9833da726e9376c2e32cff7" := by
  decide +kernel

/-! What is signed, whether or not the timestamp has a text -/

/-- The bytes of `"{timestamp}."`, then the body. -/
def payload (timestamp : Int) (body : List UInt8) : List UInt8 :=
  encode (toString timestamp ++ ".") ++ body

/-- `v1=` and the digest of the payload in hexadecimal. -/
def signatureText (secret : String) (timestamp : Int) (body : List UInt8) : String :=
  signatureVersion ++ "=" ++ hexdigest (hmacSha256 (encode secret) (payload timestamp body))

variable {secret : String} {timestamp : Int} {body : List UInt8}

theorem signedPayload_printable (printable : Printable timestamp) :
    signedPayload timestamp body = .ok (payload timestamp body) := by
  rw [signedPayload, intText, if_pos printable]
  rfl

theorem signedPayload_unprintable (long : ¬ Printable timestamp) :
    signedPayload timestamp body = .error .valueError := by
  rw [signedPayload, intText, if_neg long]
  rfl

theorem computeSignature_printable (printable : Printable timestamp) :
    computeSignature secret timestamp body = .ok (signatureText secret timestamp body) := by
  rw [computeSignature, signedPayload_printable printable]
  rfl

theorem computeSignature_unprintable (long : ¬ Printable timestamp) :
    computeSignature secret timestamp body = .error .valueError := by
  rw [computeSignature, signedPayload_unprintable long]
  rfl

theorem toList_signatureText (secret : String) (timestamp : Int) (body : List UInt8) :
    (signatureText secret timestamp body).toList = (signatureVersion ++ "=").toList ++
      Digits.hexBytes (hmacSha256 (encode secret) (payload timestamp body)) := by
  rw [signatureText, String.toList_append, hexdigest, String.toList_ofList]

/-- The characters of a signature are the version, a sign and digits. -/
theorem signatureText_ascii (secret : String) (timestamp : Int) (body : List UInt8) :
    Ascii (signatureText secret timestamp body) := by
  intro c h
  rw [toList_signatureText] at h
  rcases List.mem_append.mp h with version | digit
  · have known : Ascii (signatureVersion ++ "=") := by decide +kernel
    exact known c version
  · obtain ⟨d, small, rfl⟩ := Digits.mem_hexBytes digit
    have all : ∀ d < 16, d.digitChar.toNat < 128 := by decide
    exact all d small

end Relay.Signing
