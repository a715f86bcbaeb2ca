import Relay.Delivery.Wire
import Relay.Lib.JsonBound
import Relay.Properties.SignatureBinds

/-!
# What a delivery carries

The body stands for the payload up to the order of fields at every depth: it is read
back as the payload, and two payloads have one body exactly when they differ in that
order only. So what the reference receiver accepts with the headers of a delivery is
its payload.
-/

namespace Relay.Wire

open JsonText Signing

variable {F : Type} {format : FloatFormat F} {p q : Payload F} {body body' : List UInt8}

theorem serializePayload_ok (serialized : serializePayload format p = .ok body) :
    p.Serializable ∧
      body = encode (String.ofList (p.value.dumps format.toFloatText compact true)) := by
  unfold serializePayload at serialized
  split at serialized
  · rename_i short
    exact ⟨short, (Except.ok.inj serialized).symm⟩
  · cases serialized

theorem serializePayload_of (short : p.Serializable) :
    serializePayload format p =
      .ok (encode (String.ofList (p.value.dumps format.toFloatText compact true))) := if_pos short

theorem Payload.wellFormed (format : FloatFormat F) (p : Payload F) (short : p.Serializable) :
    p.value.WellFormed format.toFloatText maxStrDigits :=
  (Value.wellFormed_iff format.readable p.value).mpr ⟨p.distinct, short⟩

theorem decode_encode (text : String) :
    (encode text).toByteArray.utf8Decode? = some text.toList.toArray :=
  List.utf8Decode?_utf8Encode

theorem encode_injective : Function.Injective encode := by
  intro a b same
  have read := decode_encode a
  rw [same, decode_encode b] at read
  exact String.toList_inj.mp (List.toArray_inj (Option.some.inj read.symm))

theorem parseBody_encode (cs : List Char) :
    parseBody format (encode (String.ofList cs)) = loads format.toFloatText maxStrDigits cs := by
  unfold parseBody
  rw [decode_encode, String.toList_ofList]

/-- A receiver reads or refuses any body for what it is: the reader never gives up. -/
theorem parseBody_ne_exhausted (format : FloatFormat F) (body : List UInt8) :
    parseBody format body ≠ .error .exhausted := by
  unfold parseBody
  split
  · exact fun failed => by cases failed
  · exact loads_ne_exhausted _ _ _

/-- A receiver reads the body as the payload, its fields in the order of their keys. -/
theorem payload_received (serialized : serializePayload format p = .ok body) :
    parseBody format body = .ok p.value.sortKeys ∧ Value.Same p.value p.value.sortKeys := by
  obtain ⟨short, rfl⟩ := serializePayload_ok serialized
  have formed := p.wellFormed format short
  refine ⟨?_, Value.same_sortKeys _ formed⟩
  rw [parseBody_encode]
  exact Value.loads_dumps (by decide) true formed

/-- One body stands for one payload, whatever the order of its fields at every depth. -/
theorem same_body_iff (serialized : serializePayload format p = .ok body)
    (serialized' : serializePayload format q = .ok body') :
    body = body' ↔ Value.Same p.value q.value := by
  obtain ⟨short, rfl⟩ := serializePayload_ok serialized
  obtain ⟨short', rfl⟩ := serializePayload_ok serialized'
  rw [← Value.dumps_sorted_iff (by decide) (p.wellFormed format short)
    (q.wellFormed format short')]
  constructor
  · intro same
    exact String.ofList_injective (encode_injective same)
  · intro same
    rw [same]

/-! Two orders -/

/-- An order as its sender writes it. -/
def order : Payload Nat where
  fields := [("total", .float 12), ("items", .arr [.obj [("sku", .str "é-1"), ("count", .int 2)]])]
  distinct :=
    ⟨by decide, trivial, ⟨⟨by decide, trivial, trivial, trivial⟩, trivial⟩, trivial⟩

/-- The same order with a whole number where it had a float. -/
def recounted : Payload Nat where
  fields := [("items", .arr [.obj [("count", .int 2), ("sku", .str "é-1")]]), ("total", .int 12)]
  distinct :=
    ⟨by decide, ⟨⟨by decide, trivial, trivial, trivial⟩, trivial⟩, trivial, trivial⟩

theorem order_serializable : order.Serializable := by decide +kernel

theorem recounted_serializable : recounted.Serializable := by decide +kernel

/-- The text of the total is what tells the two orders apart. -/
theorem order_body_ne :
    encode (String.ofList (order.value.dumps tenths.toFloatText compact true)) ≠
    encode (String.ofList (recounted.value.dumps tenths.toFloatText compact true)) := by
  decide +kernel

theorem payload_received_order : ∃ body,
    serializePayload tenths order = .ok body ∧
      parseBody tenths body = .ok order.value.sortKeys :=
  ⟨_, serializePayload_of order_serializable,
    (payload_received (serializePayload_of order_serializable)).1⟩

theorem same_body_iff_orders : ¬ Value.Same order.value recounted.value := fun same =>
  order_body_ne ((same_body_iff (serializePayload_of order_serializable)
    (serializePayload_of recounted_serializable)).mpr same)

/-! The reference receiver -/

section

variable {deliveryId eventId : Uuid} {secret : String} {timestamp : Int}
  {headers : List (String × String)}

/-- The check says no rather than raise. -/
theorem signatureValid_eq (secretive : secret ≠ "")
    (built : buildHeaders deliveryId eventId secret body timestamp = .ok headers)
    (body' : List UInt8) (clock : Int) :
    signatureValid secret headers body' clock =
      .ok (decide (|clock - timestamp| ≤ defaultToleranceSeconds ∧
        signatureText secret timestamp body' = signatureText secret timestamp body)) := by
  obtain ⟨printable, time, signature⟩ := buildHeaders_ok built
  unfold signatureValid
  rw [if_neg secretive, time, signature, Option.getD_some, Option.getD_some, intOfText_toString]
  dsimp only
  by_cases late : defaultToleranceSeconds < |clock - timestamp|
  · rw [verifySignature_outside late, decide_eq_false (fun both => not_le.mpr late both.1)]
  · rw [verifySignature_inside late printable,
      compareDigest_signatureText (signatureText_ascii secret timestamp body)]
    simp only [not_lt.mp late, true_and]

theorem headers_ids (built : buildHeaders deliveryId eventId secret body timestamp = .ok headers) :
    headers.lookup "Relay-Id" = some (uuidText deliveryId) ∧
      headers.lookup "Relay-Event-Id" = some (uuidText eventId) := by
  obtain ⟨printable, _⟩ := buildHeaders_ok built
  rw [buildHeaders_printable printable] at built
  rw [← Except.ok.inj built]
  constructor <;> simp [List.lookup_cons]

/-- Of any body that comes with the headers of a delivery, the reference receiver notes whose
delivery it is, and as valid the body that was sent, within its tolerance, and no other. A body
that serializes a payload is that one exactly when the payload is that of the delivery. -/
theorem delivery_authenticated (secretive : secret ≠ "")
    (serialized : serializePayload format p = .ok body)
    (built : buildHeaders deliveryId eventId secret body timestamp = .ok headers)
    (noCollision : hmacSha256 (encode secret) (payload timestamp body') =
      hmacSha256 (encode secret) (payload timestamp body) →
        payload timestamp body' = payload timestamp body) (clock : Int) :
    received secret headers body' clock =
        .ok ⟨some (uuidText deliveryId), some (uuidText eventId),
          decide (body' = body ∧ |clock - timestamp| ≤ defaultToleranceSeconds)⟩ ∧
      ∀ q : Payload F, serializePayload format q = .ok body' →
        (body' = body ↔ Value.Same p.value q.value) := by
  obtain ⟨delivery, event⟩ := headers_ids built
  have signed : signatureText secret timestamp body' = signatureText secret timestamp body ↔
      body' = body := by
    constructor
    · intro same
      exact (payload_injective (noCollision (signatureText_inj same))).2
    · rintro rfl
      rfl
  have valid : (|clock - timestamp| ≤ defaultToleranceSeconds ∧
      signatureText secret timestamp body' = signatureText secret timestamp body) ↔
        body' = body ∧ |clock - timestamp| ≤ defaultToleranceSeconds := by
    rw [signed, and_comm]
  refine ⟨?_, fun q serialized' => ?_⟩
  · unfold received
    rw [delivery, event, signatureValid_eq secretive built, decide_eq_decide.mpr valid, ok_bind]
    rfl
  · rw [← same_body_iff serialized serialized', eq_comm]

/-- The order, signed at second five and received at second six. -/
theorem delivery_authenticated_order : ∃ body headers,
    serializePayload tenths order = .ok body ∧
      buildHeaders 1 2 "whsec" body 5 = .ok headers ∧
      received "whsec" headers body 6 = .ok ⟨some (uuidText 1), some (uuidText 2), true⟩ := by
  have printable : Printable 5 := by decide +kernel
  have serialized : serializePayload tenths order = _ := serializePayload_of order_serializable
  have built (body : List UInt8) : buildHeaders 1 2 "whsec" body 5 = .ok _ :=
    buildHeaders_printable printable
  refine ⟨_, _, serialized, built _, ?_⟩
  have authenticated := delivery_authenticated (by decide) serialized (built _) (fun _ => rfl) 6
  exact authenticated.1.trans (by rw [decide_eq_true ⟨rfl, by decide⟩])

end

end Relay.Wire
