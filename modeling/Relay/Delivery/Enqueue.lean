import Relay.Config
import Mathlib.Logic.Function.Iterate

/-!
# Stream entries and their shard

A delivery always lands on the stream that the crc32 of its endpoint's bytes
selects, so the assignment does not depend on the process that enqueues.
-/

namespace Relay.Enqueue

/-- `uuid.bytes`: sixteen bytes, most significant first. -/
def bytes (id : Uuid) : List Nat :=
  (List.range 16).map (fun i => (id.toNat >>> (8 * (15 - i))) % 256)

def crc32Bit (c : Nat) : Nat := if c % 2 = 1 then (c / 2) ^^^ 0xEDB88320 else c / 2

def crc32Byte (c byte : Nat) : Nat := crc32Bit^[8] (c ^^^ byte)

def crc32 (data : List Nat) : Nat := data.foldl crc32Byte 0xFFFFFFFF ^^^ 0xFFFFFFFF

/-- The check value of the polynomial: the digits one to nine in ASCII. -/
example : crc32 [49, 50, 51, 52, 53, 54, 55, 56, 57] = 0xCBF43926 := by decide +kernel

def shardFor (streamShards : Nat) (endpointId : Uuid) : Nat :=
  crc32 (bytes endpointId) % streamShards

/-- The fields of a stream entry. -/
structure Fields where
  deliveryId : Uuid
  eventId : Uuid
  endpointId : Uuid
  deriving DecidableEq

end Relay.Enqueue
