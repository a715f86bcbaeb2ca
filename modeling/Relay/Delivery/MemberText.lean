import Relay.Delivery.RetryQueue
import Relay.Lib.Runs
import Relay.Text

/-!
# Members and entries as texts

The strings that pass between the workers, the scheduler's script and the streams:
a member of the retry set is four texts joined, which the script takes apart with
a pattern; a stream key is a prefix and the number of the shard.
-/

namespace Relay.RetryQueue

open Enqueue

/-- `MEMBER_SEPARATOR`. -/
def separator : Char := '|'

/-- A stream entry as XADD is given it. -/
structure Entry where
  key : String
  fields : List (String × String)
  deriving DecidableEq

/-- `stream_key`. -/
def streamKey (shard : Nat) : String := "relay:deliveries:" ++ toString shard

/-- `enqueue_delivery`. -/
def enqueueEntry (streamShards : Nat) (deliveryId eventId endpointId : Uuid) : Entry :=
  ⟨streamKey (shardFor streamShards endpointId),
    [("delivery_id", uuidText deliveryId), ("event_id", uuidText eventId),
      ("endpoint_id", uuidText endpointId)]⟩

/-- The strings that `encode_member` joins. -/
def Member.parts (m : Member) : List String :=
  [uuidText m.deliveryId, uuidText m.eventId, uuidText m.endpointId, toString m.shard]

/-- A member as it is stored. -/
def Member.text (m : Member) : String := (String.singleton separator).intercalate m.parts

/-- `string.gmatch(member, '[^|]+')`. -/
def partsOf (member : String) : List String :=
  (Runs.runs (fun c => c ≠ separator) member.toList).map String.ofList

/-- The entry that the loop of `MOVE_DUE_LUA` appends for a member; with fewer than
four parts the script fails. -/
def moveEntry (member : String) : Option Entry :=
  match partsOf member with
  | deliveryId :: eventId :: endpointId :: shard :: _ =>
    some ⟨"relay:deliveries:" ++ shard,
      [("delivery_id", deliveryId), ("event_id", eventId), ("endpoint_id", endpointId)]⟩
  | _ => none

example : (encodeMember 8 1 2 3).text =
    "00000000-0000-0000-0000-000000000001|00000000-0000-0000-0000-000000000002|" ++
      "00000000-0000-0000-0000-000000000003|7" := by decide +kernel

theorem uuidText_separator (id : Uuid) : separator ∉ (uuidText id).toList :=
  not_mem_uuidText (by decide) (by decide) id

theorem number_separator (n : Nat) : separator ∉ (toString n).toList := by
  intro h
  rw [Nat.toString_eq_repr, Nat.toList_repr] at h
  have digit := Nat.isDigit_of_mem_toDigits (by decide) (by decide) h
  cases digit

/-- No part is empty, and none contains the separator. -/
theorem Member.parts_plain (m : Member) :
    ∀ part ∈ m.parts, part.toList ≠ [] ∧ separator ∉ part.toList := by
  intro part listed
  simp only [parts, List.mem_cons, List.not_mem_nil, or_false] at listed
  rcases listed with rfl | rfl | rfl | rfl
  · exact ⟨uuidText_ne_nil _, uuidText_separator _⟩
  · exact ⟨uuidText_ne_nil _, uuidText_separator _⟩
  · exact ⟨uuidText_ne_nil _, uuidText_separator _⟩
  · refine ⟨?_, number_separator _⟩
    rw [Nat.toString_eq_repr, Nat.toList_repr]
    exact Nat.toDigits_ne_nil

/-- The pattern finds the parts that were joined. -/
theorem partsOf_text (m : Member) : partsOf m.text = m.parts := by
  have whole : Runs.runs (fun c => decide (c ≠ separator)) m.text.toList =
      m.parts.map String.toList := by
    rw [Member.text, String.toList_intercalate, String.toList_singleton]
    refine Runs.runs_intercalate (by decide) (fun part listed => ?_)
    obtain ⟨text, inside, rfl⟩ := List.mem_map.mp listed
    obtain ⟨nonempty, plain⟩ := m.parts_plain text inside
    refine ⟨nonempty, fun c h => decide_eq_true ?_⟩
    rintro rfl
    exact plain h
  rw [partsOf, whole, List.map_map]
  exact List.map_id'' (fun text => String.ofList_toList) m.parts

/-- Different members are stored as different strings. -/
theorem Member.text_injective : Function.Injective Member.text := by
  intro m n same
  have parts : m.parts = n.parts := by rw [← partsOf_text, ← partsOf_text, same]
  simp only [Member.parts, List.cons.injEq, and_true] at parts
  obtain ⟨deliveryId, eventId, endpointId, shard⟩ := parts
  have shard : m.shard = n.shard := by
    have digits := congrArg String.toList shard
    rw [Nat.toString_eq_repr, Nat.toString_eq_repr, Nat.toList_repr, Nat.toList_repr] at digits
    rw [← Nat.ofDigitChars_ten_toDigits (n := m.shard), digits, Nat.ofDigitChars_ten_toDigits]
  cases m
  cases n
  simp only [Member.mk.injEq]
  exact ⟨uuidText_injective deliveryId, uuidText_injective eventId, uuidText_injective endpointId,
    shard⟩

/-- What the script appends for a member: its fields, on the stream of its shard. -/
theorem moveEntry_text (m : Member) : moveEntry m.text =
    some ⟨streamKey m.shard, [("delivery_id", uuidText m.deliveryId),
      ("event_id", uuidText m.eventId), ("endpoint_id", uuidText m.endpointId)]⟩ := by
  rw [moveEntry, partsOf_text]
  rfl

end Relay.RetryQueue
