import Relay.Config
import Relay.Lib.Expiring
import Relay.Lib.ZSet

/-!
# Rate limit and in-flight cap of one tenant

Both are scripts on one key, so check and act are one step. `clock` is the
server's clock, which decides the expiry of the key; `now` is the argument that
the worker passes.
-/

namespace Relay.RateLimit

structure Bucket where
  tokens : ℚ
  updatedAt : ℚ

def bucketTtl : ℚ := 60

/-- `TOKEN_BUCKET_LUA` for one requested token. -/
def takeToken (b : Option (Expiring Bucket)) (clock : ℚ) (rate : Nat) (now : ℚ) :
    Option (Expiring Bucket) × Bool :=
  let state := (Expiring.live clock b).getD ⟨rate, now⟩
  let elapsed := max 0 (now - state.updatedAt)
  let tokens := min (rate : ℚ) (state.tokens + elapsed * rate)
  if 1 ≤ tokens then (some ⟨⟨tokens - 1, now⟩, clock + bucketTtl⟩, true)
  else (some ⟨⟨tokens, now⟩, clock + bucketTtl⟩, false)

/-- The bucket that a grant or a refusal leaves behind. -/
theorem takeToken_eq {rate : Nat} {b : Option (Expiring Bucket)} {clock now tokens : ℚ}
    (refilled : min (rate : ℚ) (((Expiring.live clock b).getD ⟨rate, now⟩).tokens +
      max 0 (now - ((Expiring.live clock b).getD ⟨rate, now⟩).updatedAt) * rate) = tokens) :
    takeToken b clock rate now =
      if 1 ≤ tokens then (some ⟨⟨tokens - 1, now⟩, clock + bucketTtl⟩, true)
      else (some ⟨⟨tokens, now⟩, clock + bucketTtl⟩, false) := by
  subst refilled
  rfl

def slotTtlSeconds : ℚ := 60

/-- `ACQUIRE_SLOT_LUA`. -/
def acquireSlot (slots : Option (Expiring (ZSet Uuid))) (clock : ℚ) (cap : Nat) (now : ℚ)
    (token : Uuid) : Option (Expiring (ZSet Uuid)) × Bool :=
  let held := ((Expiring.live clock slots).getD ZSet.empty).zremUpTo now
  if cap ≤ held.card then (slots.map (fun k => ⟨held, k.deadline⟩), false)
  else (some ⟨held.zadd token (now + slotTtlSeconds), clock + slotTtlSeconds * 2⟩, true)

/-- `release_slot`: ZREM of the token. -/
def releaseSlot (slots : Option (Expiring (ZSet Uuid))) (token : Uuid) :
    Option (Expiring (ZSet Uuid)) :=
  slots.map (fun k => ⟨k.value.zrem token, k.deadline⟩)

end Relay.RateLimit
