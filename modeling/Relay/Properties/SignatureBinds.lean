import Relay.Agent.Tools
import Relay.Lib.Runs
import Relay.Properties.SignatureChecks

/-!
# A signature stands for one timestamp and one body

The decimal text of the timestamp ends at the first full stop of the payload,
whatever bytes the body is made of.
-/

namespace Relay.Signing

variable {deliveryId eventId : Uuid} {secret : String} {timestamp : Int} {body : List UInt8}
  {headers : List (String × String)}

/-! The payload -/

theorem utf8EncodeChar_ascii {c : Char} (ascii : c.toNat < 128) :
    String.utf8EncodeChar c = [c.val.toUInt8] := by
  refine String.utf8EncodeChar_eq_singleton (Char.utf8Size_eq_one_iff.mpr ?_)
  rw [UInt32.le_iff_toNat_le]
  exact Nat.le_of_lt_succ ascii

theorem encode_ascii {text : String} (ascii : Ascii text) :
    encode text = text.toList.map (fun c => c.val.toUInt8) := by
  rw [encode, List.map_eq_flatMap]
  refine List.flatMap_congr (fun c h => ?_)
  exact utf8EncodeChar_ascii (ascii c h)

/-- Characters of ASCII are told apart by their byte. -/
theorem byte_injective {c d : Char} (hc : c.toNat < 128) (hd : d.toNat < 128)
    (same : c.val.toUInt8 = d.val.toUInt8) : c = d := by
  have bytes := congrArg UInt8.toNat same
  simp only [UInt32.toNat_toUInt8] at bytes
  have values : c.toNat = d.toNat := by
    change c.toNat % 2 ^ 8 = d.toNat % 2 ^ 8 at bytes
    omega
  exact Char.toNat_inj.mp values

theorem toString_ascii (n : Int) : Ascii (toString n) := by
  intro c h
  rcases mem_toString h with rfl | digit
  · decide
  · have bound := (isDigit_bounds digit).2
    omega

/-- The byte of the full stop. -/
def stop : UInt8 := '.'.val.toUInt8

/-- The text of the timestamp, the full stop, the body. -/
theorem payload_eq (timestamp : Int) (body : List UInt8) :
    payload timestamp body = encode (toString timestamp) ++ stop :: body := by
  rw [payload, encode, String.toList_append, List.flatMap_append, List.append_assoc]
  rfl

theorem stop_not_mem_encode (n : Int) : stop ∉ encode (toString n) := by
  rw [encode_ascii (toString_ascii n)]
  intro h
  obtain ⟨c, listed, same⟩ := List.mem_map.mp h
  have dot : c = '.' := byte_injective (toString_ascii n c listed) (by decide) same
  subst dot
  rcases mem_toString listed with sign | digit
  · exact absurd sign (by decide)
  · exact absurd digit (by decide)

theorem encode_toString_injective : Function.Injective (fun n : Int => encode (toString n)) := by
  intro m n same
  simp only [encode_ascii (toString_ascii m), encode_ascii (toString_ascii n)] at same
  refine toString_injective (String.toList_inj.mp ?_)
  refine List.ext_getElem (by simpa using congrArg List.length same) (fun i hi hi' => ?_)
  have here := congrArg (fun bytes => bytes[i]?) same
  simp only [List.getElem?_map, List.getElem?_eq_getElem hi, List.getElem?_eq_getElem hi',
    Option.map_some] at here
  exact byte_injective (toString_ascii m _ (List.getElem_mem hi))
    (toString_ascii n _ (List.getElem_mem hi')) (Option.some.inj here)

theorem payload_injective {t t' : Int} {b b' : List UInt8} (same : payload t b = payload t' b') :
    t = t' ∧ b = b' := by
  rw [payload_eq, payload_eq] at same
  obtain ⟨texts, bodies⟩ :=
    Runs.append_sep_inj (stop_not_mem_encode t) (stop_not_mem_encode t') same
  exact ⟨encode_toString_injective texts, bodies⟩

theorem signedPayload_ok {t : Int} {b p : List UInt8} (signed : signedPayload t b = .ok p) :
    p = payload t b := by
  by_cases printable : Printable t
  · rw [signedPayload_printable printable] at signed
    exact (Except.ok.inj signed).symm
  · rw [signedPayload_unprintable printable] at signed
    cases signed

/-! The signature -/

/-- Equal signatures come from equal digests. -/
theorem signatureText_inj {t t' : Int} {b b' : List UInt8}
    (same : signatureText secret t' b' = signatureText secret t b) :
    hmacSha256 (encode secret) (payload t' b') = hmacSha256 (encode secret) (payload t b) := by
  have texts := congrArg String.toList same
  rw [toList_signatureText, toList_signatureText] at texts
  exact Digits.hexBytes_injective (List.append_cancel_left texts)

/-! The timestamp header -/

open Agent in
theorem digits_all {cs : List Char} (digit : ∀ c ∈ cs, c.isDigit = true) (value : Nat) :
    digits value true cs = some (Nat.ofDigitChars 10 cs value) := by
  induction cs generalizing value with
  | nil => rfl
  | cons c rest ih =>
    rw [digits, if_pos (digit c List.mem_cons_self),
      ih (fun d h => digit d (List.mem_cons_of_mem c h)), Nat.ofDigitChars_cons, Nat.mul_comm]

open Agent in
theorem digits_toDigits (n : Nat) : digits 0 false (Nat.toDigits 10 n) = some n := by
  have digit : ∀ c ∈ Nat.toDigits 10 n, c.isDigit = true :=
    fun c h => Nat.isDigit_of_mem_toDigits (by decide) (by decide) h
  have whole := digits_all digit 0
  rw [Nat.ofDigitChars_ten_toDigits] at whole
  cases text : Nat.toDigits 10 n with
  | nil => exact absurd text Nat.toDigits_ne_nil
  | cons c rest =>
    rw [text] at digit whole
    rw [digits, if_pos (digit c List.mem_cons_self)] at whole ⊢
    exact whole

open Agent in
theorem strip_plain {text : String} (plain : ∀ c ∈ text.toList, isSpace c = false) :
    strip text = text := by
  have nothing : ∀ cs : List Char, (∀ c ∈ cs, isSpace c = false) →
      cs.dropWhile isSpace = cs := by
    intro cs none
    cases cs with
    | nil => rfl
    | cons c rest => rw [List.dropWhile_cons, none c List.mem_cons_self, if_neg (by decide)]
  rw [strip, nothing _ plain, nothing _ (fun c h => plain c (List.mem_reverse.mp h)),
    List.reverse_reverse, String.ofList_toList]

open Agent in
/-- `int(str(n))`. -/
theorem intOfText_toString (n : Int) : intOfText (toString n) = some n := by
  have plain : ∀ c ∈ (toString n).toList, isSpace c = false := by
    intro c h
    rcases mem_toString h with rfl | digit
    · decide
    · obtain ⟨low, high⟩ := isDigit_bounds digit
      simp only [isSpace, decide_eq_false_iff_not]
      omega
  rw [intOfText, strip_plain plain, toList_toString]
  by_cases positive : 0 ≤ n
  · rw [if_pos positive]
    have parsed := digits_toDigits n.toNat
    cases text : Nat.toDigits 10 n.toNat with
    | nil => exact absurd text Nat.toDigits_ne_nil
    | cons c rest =>
      have digit : c.isDigit = true :=
        Nat.isDigit_of_mem_toDigits (by decide) (by decide) (text ▸ List.mem_cons_self)
      rw [text] at parsed
      split
      · rename_i sign
        cases sign
        cases digit
      · rename_i sign
        cases sign
        cases digit
      · rw [parsed]
        simp only [Option.map_some, Option.some.injEq]
        exact Int.toNat_of_nonneg positive
  · rw [if_neg positive]
    simp only [digits_toDigits]
    change some (-((-n).toNat : Int)) = some n
    rw [Int.toNat_of_nonneg (by omega), Int.neg_neg]

/-! The headers -/

theorem buildHeaders_printable (printable : Printable timestamp) :
    buildHeaders deliveryId eventId secret body timestamp =
      .ok [("Content-Type", "application/json"), ("User-Agent", "Relay/1.0"),
        ("Relay-Id", uuidText deliveryId), ("Relay-Event-Id", uuidText eventId),
        ("Relay-Timestamp", toString timestamp),
        ("Relay-Signature", signatureText secret timestamp body)] := by
  rw [buildHeaders, intText, if_pos printable, computeSignature_printable printable]
  rfl

theorem buildHeaders_unprintable (long : ¬ Printable timestamp) :
    buildHeaders deliveryId eventId secret body timestamp = .error .valueError := by
  rw [buildHeaders, intText, if_neg long]
  rfl

/-- What `build_headers` returns, if it returns. -/
theorem buildHeaders_ok
    (built : buildHeaders deliveryId eventId secret body timestamp = .ok headers) :
    Printable timestamp ∧
      headers.lookup "Relay-Timestamp" = some (toString timestamp) ∧
      headers.lookup "Relay-Signature" = some (signatureText secret timestamp body) := by
  by_cases printable : Printable timestamp
  · rw [buildHeaders_printable printable] at built
    have same := Except.ok.inj built
    rw [← same]
    refine ⟨printable, ?_, ?_⟩ <;> simp [List.lookup_cons]
  · rw [buildHeaders_unprintable printable] at built
    cases built

/-- The check says yes exactly inside the window and to the right signature. -/
theorem verifySignature_true {t : Int} {b : List UInt8} {signature : String} {tolerance clock : Int}
    {now : Option Int} (ascii : Ascii signature) :
    verifySignature secret t b signature tolerance now clock = .ok true ↔
      |now.getD clock - t| ≤ tolerance ∧ Printable t ∧
        signature = signatureText secret t b := by
  by_cases late : tolerance < |now.getD clock - t|
  · rw [verifySignature_outside late]
    exact iff_of_false (by rintro ⟨⟩) (fun all => not_le_of_gt late all.1)
  · by_cases printable : Printable t
    · rw [verifySignature_inside late printable, compareDigest_signatureText ascii,
        Except.ok.injEq,
        decide_eq_true_eq]
      exact ⟨fun same => ⟨not_lt.mp late, printable, same.symm⟩, fun all => all.2.2.symm⟩
    · rw [verifySignature_unprintable late printable]
      exact iff_of_false (by rintro ⟨⟩) (fun all => printable all.2.1)

/-- No payload stands for two pairs; and the headers for one pair give its
timestamp back and verify for it, inside the window, and for no other pair whose
payload has a different digest. -/
theorem signature_binds (t' : Int) (b' : List UInt8)
    (built : buildHeaders deliveryId eventId secret body timestamp = .ok headers)
    (noCollision : hmacSha256 (encode secret) (payload t' b') =
      hmacSha256 (encode secret) (payload timestamp body) →
        payload t' b' = payload timestamp body) :
    (∀ t t' b b' p, signedPayload t b = .ok p → signedPayload t' b' = .ok p →
      t = t' ∧ b = b') ∧
    (headers.lookup "Relay-Timestamp").bind Agent.intOfText = some timestamp ∧
    ∃ signature, headers.lookup "Relay-Signature" = some signature ∧
      ∀ tolerance now clock,
        verifySignature secret t' b' signature tolerance now clock = .ok true ↔
          t' = timestamp ∧ b' = body ∧ |now.getD clock - timestamp| ≤ tolerance := by
  obtain ⟨printable, time, signature⟩ := buildHeaders_ok built
  refine ⟨?_, ?_, _, signature, fun tolerance now clock => ?_⟩
  · intro t t' b b' p first second
    exact payload_injective ((signedPayload_ok first).symm.trans (signedPayload_ok second))
  · rw [time, Option.bind_some]
    exact intOfText_toString timestamp
  · rw [verifySignature_true (signatureText_ascii secret timestamp body)]
    constructor
    · rintro ⟨inside, _, same⟩
      obtain ⟨rfl, rfl⟩ := payload_injective (noCollision (signatureText_inj same.symm))
      exact ⟨rfl, rfl, inside⟩
    · rintro ⟨rfl, rfl, inside⟩
      exact ⟨inside, printable, rfl⟩

/-- Two letters signed at second five, checked under second six. -/
theorem signature_binds_letters :
    ∃ headers signature, buildHeaders 1 2 "whsec" [0x61, 0x62] 5 = .ok headers ∧
      headers.lookup "Relay-Signature" = some signature ∧
      ¬ verifySignature "whsec" 6 [0x61, 0x62] signature 300 (some 6) 0 = .ok true := by
  have printable : Printable 5 := by decide +kernel
  have differ : hmacSha256 (encode "whsec") (payload 6 [0x61, 0x62]) ≠
      hmacSha256 (encode "whsec") (payload 5 [0x61, 0x62]) := by decide +kernel
  obtain ⟨headers, built⟩ : ∃ headers,
    buildHeaders 1 2 "whsec" [0x61, 0x62] 5 = .ok headers :=
    ⟨_, buildHeaders_printable printable⟩
  obtain ⟨_, _, signature, found, verifies⟩ := signature_binds 6 [0x61, 0x62] built
    (fun same => absurd same differ)
  refine ⟨headers, signature, built, found, fun accepted => ?_⟩
  exact absurd ((verifies 300 (some 6) 0).mp accepted).1 (by decide)

end Relay.Signing
