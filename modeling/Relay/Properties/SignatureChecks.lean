import Relay.Delivery.Signing

/-!
# What the check of a signature answers

Inside the time window the check compares texts, and the comparison refuses texts
with characters beyond ASCII: whoever sends such a signature gets an exception.
-/

namespace Relay.Signing

variable {secret signature : String} {timestamp tolerance clock : Int} {now : Option Int}
  {body : List UInt8}

theorem verifySignature_outside (late : tolerance < |now.getD clock - timestamp|) :
    verifySignature secret timestamp body signature tolerance now clock = .ok false :=
  if_pos late

/-- Inside the window the answer is that of the comparison with the right signature. -/
theorem verifySignature_inside (inside : ¬ tolerance < |now.getD clock - timestamp|)
    (printable : Printable timestamp) :
    verifySignature secret timestamp body signature tolerance now clock =
      compareDigest (signatureText secret timestamp body) signature := by
  rw [verifySignature, if_neg inside, computeSignature_printable printable, ok_bind]

theorem verifySignature_unprintable (inside : ¬ tolerance < |now.getD clock - timestamp|)
    (long : ¬ Printable timestamp) :
    verifySignature secret timestamp body signature tolerance now clock = .error .valueError := by
  rw [verifySignature, if_neg inside, computeSignature_unprintable long]
  rfl

theorem compareDigest_signatureText (ascii : Ascii signature) :
    compareDigest (signatureText secret timestamp body) signature =
      .ok (decide (signatureText secret timestamp body = signature)) :=
  if_pos ⟨signatureText_ascii secret timestamp body, ascii⟩

theorem compareDigest_raises (ascii : ¬ Ascii signature) (text : String) :
    compareDigest text signature = .error .typeError := if_neg (fun both => ascii both.2)

/-- `verify_signature` accepts the right signature inside the window and nothing
else, without raising, if and only if the window has passed, or the signature is
ASCII and the timestamp has a text. -/
theorem verifySignature_exact :
    verifySignature secret timestamp body signature tolerance now clock =
        .ok (decide (|now.getD clock - timestamp| ≤ tolerance ∧
          signature = signatureText secret timestamp body)) ↔
      tolerance < |now.getD clock - timestamp| ∨ Ascii signature ∧ Printable timestamp := by
  by_cases late : tolerance < |now.getD clock - timestamp|
  · rw [verifySignature_outside late]
    have rejects : ¬ (|now.getD clock - timestamp| ≤ tolerance ∧
        signature = signatureText secret timestamp body) := fun both => not_le_of_gt late both.1
    rw [decide_eq_false rejects]
    exact iff_of_true rfl (Or.inl late)
  · have inside : |now.getD clock - timestamp| ≤ tolerance := not_lt.mp late
    by_cases printable : Printable timestamp
    · rw [verifySignature_inside late printable]
      by_cases ascii : Ascii signature
      · rw [compareDigest_signatureText ascii]
        refine iff_of_true ?_ (Or.inr ⟨ascii, printable⟩)
        simp only [inside, true_and, eq_comm]
      · rw [compareDigest_raises ascii]
        refine iff_of_false (by rintro ⟨⟩) ?_
        rintro (passed | ⟨plain, _⟩)
        · exact late passed
        · exact ascii plain
    · rw [verifySignature_unprintable late printable]
      refine iff_of_false (by rintro ⟨⟩) ?_
      rintro (passed | ⟨_, known⟩)
      · exact late passed
      · exact printable known

/-- A signature with an accent, inside the window. -/
theorem verifySignature_raises :
    verifySignature "whsec" 5 [0x61, 0x62] "v1=é" 300 (some 5) 0 = .error .typeError ∧
      ¬ verifySignature "whsec" 5 [0x61, 0x62] "v1=é" 300 (some 5) 0 =
        .ok (decide (|(some 5).getD 0 - (5 : Int)| ≤ 300 ∧
          "v1=é" = signatureText "whsec" 5 [0x61, 0x62])) := by
  have accent : ¬ Ascii "v1=é" := by decide +kernel
  have raises : verifySignature "whsec" 5 [0x61, 0x62] "v1=é" 300 (some 5) 0 =
      .error .typeError := by
    rw [verifySignature_inside (by decide) (by decide +kernel)]
    exact compareDigest_raises accent _
  refine ⟨raises, ?_⟩
  rw [raises]
  rintro ⟨⟩

end Relay.Signing
