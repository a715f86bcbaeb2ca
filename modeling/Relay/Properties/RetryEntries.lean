import Relay.Delivery.MemberText

/-!
# A retry comes back as the entry it was

The member of a delivery in the retry set, taken apart by the script, gives the
stream entry that enqueueing the delivery gave, on a stream that is consumed.
-/

namespace Relay.RetryQueue

open Enqueue

/-- The streams that the workers read, all shards together. -/
def consumedKeys (streamShards : Nat) : List String := (List.range streamShards).map streamKey

variable {streamShards : Nat}

theorem shardFor_lt (positive : 0 < streamShards) (endpointId : Uuid) :
    shardFor streamShards endpointId < streamShards := Nat.mod_lt _ positive

theorem encodeMember_text_injective {d e p d' e' p' : Uuid}
    (same : (encodeMember streamShards d e p).text = (encodeMember streamShards d' e' p').text) :
    d = d' ∧ e = e' ∧ p = p' := by
  have members := Member.text_injective same
  simp only [encodeMember, Member.mk.injEq] at members
  exact ⟨members.1, members.2.1, members.2.2.1⟩

/-- The script finds the four texts, no other delivery has the same member, and
the entry that it appends is that of `enqueue_delivery`, on a consumed stream. -/
theorem retry_recreates_entry (positive : 0 < streamShards) (d e p : Uuid) :
    partsOf (encodeMember streamShards d e p).text =
        [uuidText d, uuidText e, uuidText p, toString (shardFor streamShards p)] ∧
      (∀ d' e' p', (encodeMember streamShards d e p).text =
        (encodeMember streamShards d' e' p').text → d = d' ∧ e = e' ∧ p = p') ∧
      moveEntry (encodeMember streamShards d e p).text = some (enqueueEntry streamShards d e p) ∧
      shardFor streamShards p < streamShards ∧
      (enqueueEntry streamShards d e p).key ∈ consumedKeys streamShards := by
  have below := shardFor_lt positive p
  refine ⟨partsOf_text _, fun _ _ _ => encodeMember_text_injective, moveEntry_text _, below, ?_⟩
  exact List.mem_map.mpr ⟨_, List.mem_range.mpr below, rfl⟩

theorem retry_recreates_entry_eight :
    moveEntry (encodeMember 8 1 2 3).text = some ⟨"relay:deliveries:7",
      [("delivery_id", "00000000-0000-0000-0000-000000000001"),
        ("event_id", "00000000-0000-0000-0000-000000000002"),
        ("endpoint_id", "00000000-0000-0000-0000-000000000003")]⟩ ∧
      "relay:deliveries:7" ∈ consumedKeys 8 := by
  obtain ⟨_, _, entry, _, consumed⟩ := retry_recreates_entry (by decide : 0 < 8) 1 2 3
  have key : enqueueEntry 8 1 2 3 = ⟨"relay:deliveries:7",
      [("delivery_id", "00000000-0000-0000-0000-000000000001"),
        ("event_id", "00000000-0000-0000-0000-000000000002"),
        ("endpoint_id", "00000000-0000-0000-0000-000000000003")]⟩ := by decide +kernel
  rw [key] at entry consumed
  exact ⟨entry, consumed⟩

end Relay.RetryQueue
