import Mathlib.Algebra.Order.Field.Rat

/-!
# Settings and identifiers

Times are seconds in exact rational arithmetic. Identifiers are the 128 bits of
a UUID. The settings are the ones that the modelled code reads.
-/

namespace Relay

abbrev Uuid := BitVec 128

instance : LawfulBEq Uuid := inferInstance

structure Settings where
  streamShards : Nat := 8
  defaultTenantRatePerSec : Nat := 50
  defaultTenantMaxInflight : Nat := 20
  deliveryTimeoutSeconds : ℚ := 10
  maxAttempts : Nat := 7

end Relay
