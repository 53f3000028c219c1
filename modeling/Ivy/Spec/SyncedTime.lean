import Ivy.Native.Clock
import Mathlib.Algebra.Group.Nat.Defs

/-!
# The synchronised time

The uptime in seconds is taken from the wrapped milliseconds. So it falls back by 4294967 seconds
with every wrap, and the synchronised time with it, up to the wrap at which what was lost adds up
to a multiple of `2^32` seconds.
-/

namespace Ivy.Spec

open Ivy.Native

/-- The time that is returned `ms` milliseconds after the start, after a synchronisation in second
    `s`. -/
def syncedAt (sync : TimeSync) (timestamp : UInt32) (s ms : Nat) : UInt32 :=
  (sync.setTimeSync timestamp (UInt32.ofNat s)).getSyncedTimestamp (millis ms)

/-- The returned time over the integers: a difference and a sum, each modulo `2 ^ 32`. -/
theorem toNat_syncedAt (sync : TimeSync) (timestamp : UInt32) (s ms : Nat) :
    (syncedAt sync timestamp s ms).toNat =
      ((2 ^ 32 - s % 2 ^ 32 + ms % 2 ^ 32 / 1000) % 2 ^ 32 + timestamp.toNat) % 2 ^ 32 := by
  simp only [syncedAt, TimeSync.setTimeSync, TimeSync.getSyncedTimestamp, millis,
    UInt32.toNat_add, UInt32.toNat_sub, UInt32.toNat_div, UInt32.toNat_ofNat',
    UInt32.toNat_ofNat]

/-- The seconds of the wrapped milliseconds are those of the uptime in every thousandth period. -/
theorem seconds_iff (ms : Nat) :
    ms / 1000 % 2 ^ 32 = ms % 2 ^ 32 / 1000 ↔ ms / 2 ^ 32 % 1000 = 0 := by
  omega

/-- For every synchronisation and every later uptime: the time that is returned has gone on by
    the seconds since then exactly if `millis()` has wrapped a multiple of 1000 times. While this is
    so and the time does not overflow, it does not fall. -/
theorem synced_timestamp_iff (sync : TimeSync) (timestamp : UInt32) {s ms : Nat}
    (hs : s ≤ ms / 1000) :
    (syncedAt sync timestamp s ms = UInt32.ofNat (timestamp.toNat + (ms / 1000 - s)) ↔
      ms / 2 ^ 32 % 1000 = 0) ∧
    ∀ later, ms ≤ later → ms / 2 ^ 32 % 1000 = 0 → later / 2 ^ 32 % 1000 = 0 →
      timestamp.toNat + (later / 1000 - s) < 2 ^ 32 →
      syncedAt sync timestamp s ms ≤ syncedAt sync timestamp s later := by
  have hT := timestamp.toNat_lt
  refine ⟨?_, fun later hle hms hlater hlt => ?_⟩
  · -- both sides modulo `2^32`: they differ by the seconds that the wraps have taken away
    rw [← seconds_iff, ← UInt32.toNat_inj, toNat_syncedAt, UInt32.toNat_ofNat']
    omega
  · rw [← seconds_iff] at hms hlater
    rw [UInt32.le_iff_toNat_le, toNat_syncedAt, toNat_syncedAt]
    -- both times are exact, and the sum of the later one does not wrap
    have hsec : ms / 1000 ≤ later / 1000 := Nat.div_le_div_right hle
    omega

/-- A minute after a synchronisation, before the first wrap. -/
theorem synced_timestamp_iff_minute :
    syncedAt ⟨0, 0⟩ 1700000000 5 65000 = 1700000060 :=
  (synced_timestamp_iff ⟨0, 0⟩ 1700000000 (show 5 ≤ 65000 / 1000 by decide)).1.mpr (by decide)

/-- Ten seconds after a synchronisation shortly before the wrap the time has fallen by
    4294958 seconds. -/
theorem not_synced_timestamp :
    ∃ sync timestamp s ms, s ≤ ms / 1000 ∧
      syncedAt sync timestamp s ms ≠ UInt32.ofNat (timestamp.toNat + (ms / 1000 - s)) ∧
      syncedAt sync timestamp s (s * 1000) = 1700000000 ∧
      syncedAt sync timestamp s ms = 1695705042 :=
  ⟨⟨0, 0⟩, 1700000000, 4294960, 4294970000, by decide, by decide, by decide, by decide⟩

end Ivy.Spec
