import Ivy.Native.TklTicks
import Mathlib.Algebra.Group.Nat.Defs

/-!
# Timeouts without wrap-around

A timeout that is handed on in ticks should be the floor of the timeout in the integers, grow with
it, never be `portMAX_DELAY`, and differ from the ceiling that the network interface uses by one
tick at most. The product in `pdMS_TO_TICKS` has 32 bits: at 100 ticks a second all this holds for
timeouts of up to 42949672 ms, and for no longer one.

## Key results

- `pdMsToTicks_eq_floor_iff`: the floor is right exactly if the product fits, at any tick rate
- `timeout_right_iff`: the four functions of the adapter, at 100 ticks a second
-/

namespace Ivy.Spec

open Ivy.Native

/-! ## The two conversions -/

/-- The macro over the integers: its product is reduced before the division. -/
theorem toNat_pdMsToTicks (hz ms : UInt32) :
    (pdMsToTicks hz ms).toNat = ms.toNat * hz.toNat % 2 ^ 32 / 1000 := by
  rw [pdMsToTicks, UInt32.toNat_div, UInt32.toNat_mul]
  rfl

/-- A product that wraps loses at least 2 ^ 32, which no rounding makes up for. -/
theorem pdMsToTicks_eq_floor_iff (hz ms : UInt32) :
    (pdMsToTicks hz ms).toNat = ms.toNat * hz.toNat / 1000 ↔ ms.toNat * hz.toNat < 2 ^ 32 := by
  rw [toNat_pdMsToTicks]
  omega

/-- Dividing by 1000 leaves no room for the largest value. -/
theorem pdMsToTicks_ne_portMaxDelay (hz ms : UInt32) : pdMsToTicks hz ms ≠ portMaxDelay := by
  intro heq
  have hticks := toNat_pdMsToTicks hz ms
  rw [heq, show portMaxDelay.toNat = 2 ^ 32 - 1 from rfl] at hticks
  omega

/-- Where the product fits, longer timeouts have no fewer ticks. -/
theorem pdMsToTicks_mono {hz ms ms' : UInt32} (hfits : ms'.toNat * hz.toNat < 2 ^ 32)
    (hle : ms ≤ ms') : pdMsToTicks hz ms ≤ pdMsToTicks hz ms' := by
  have hprod : ms.toNat * hz.toNat ≤ ms'.toNat * hz.toNat :=
    Nat.mul_le_mul_right _ (UInt32.le_iff_toNat_le.mp hle)
  rw [UInt32.le_iff_toNat_le, toNat_pdMsToTicks, toNat_pdMsToTicks,
    Nat.mod_eq_of_lt (Nat.lt_of_le_of_lt hprod hfits), Nat.mod_eq_of_lt hfits]
  exact Nat.div_le_div_right hprod

/-- The macro of the network interface is the ceiling, for every timeout that is not forever. -/
theorem toNat_archOsWaitMs2tick {ms : UInt32} (h : ms < archOsWaitForever) :
    (archOsWaitMs2tick 100 ms).toNat = (ms.toNat + 9) / 10 := by
  have hne : ms ≠ archOsWaitForever := UInt32.ne_of_lt h
  have hlt := ms.toNat_lt
  have hperiod : portTickPeriodMs 100 = 10 := rfl
  rw [archOsWaitMs2tick, if_neg hne, hperiod]
  -- the remainder is below ten, so neither sum wraps
  have hround : (ms % 10 + 10 - 1).toNat = ms.toNat % 10 + 9 := by
    have hsum : (ms % 10 + 10).toNat = ms.toNat % 10 + 10 := by
      rw [UInt32.toNat_add, UInt32.toNat_mod, show (10 : UInt32).toNat = 10 from rfl]
      omega
    rw [UInt32.toNat_sub_of_le _ _ (UInt32.le_iff_toNat_le.mpr (by rw [hsum]; simp)), hsum]
    rfl
  rw [UInt32.toNat_add, UInt32.toNat_div, UInt32.toNat_div, hround,
    show (10 : UInt32).toNat = 10 from rfl]
  omega

/-! ## The functions of the adapter -/

/-- The functions that take a timeout. -/
inductive TimedFn where
  | queuePost
  | queueFetch
  | semaphoreWait
  | systemSleep
  deriving DecidableEq, Repr

def callTicks : RtosCall → Option UInt32
  | .queueSend ticks => some ticks
  | .queueReceive ticks => some ticks
  | .semaphoreTake ticks => some ticks
  | .taskDelay ticks => some ticks
  | _ => none

namespace TimedFn

/-- The calls that the function makes for a handle that is not `NULL`. -/
def calls (hz : UInt32) (handle : Nat) (inIsr : Bool) (reply : RtosReply) (timeout : UInt32) :
    TimedFn → List RtosCall
  | queuePost => (tklQueuePost hz (some handle) inIsr reply timeout).2
  | queueFetch => (tklQueueFetch hz (some handle) inIsr reply timeout).2
  | semaphoreWait => (tklSemaphoreWait hz (some handle) inIsr reply timeout).2
  | systemSleep => tklSystemSleep hz timeout

/-- The tick counts that a task hands to FreeRTOS. -/
def handed (fn : TimedFn) (hz : UInt32) (handle : Nat) (reply : RtosReply) (timeout : UInt32) :
    List UInt32 :=
  (fn.calls hz handle false reply timeout).filterMap callTicks

/-- The constant that means forever; for `tkl_system_sleep`, which has none, that of the others. -/
def forever : TimedFn → UInt32
  | queuePost => tklQueueWaitFroever
  | queueFetch => tklQueueWaitFroever
  | semaphoreWait => tklSemWaitForever
  | systemSleep => 0xffffffff

end TimedFn

/-- The one tick count of a call is the floor, at least that of every shorter timeout, not
    `portMAX_DELAY`, and at most one below the ceiling. -/
def TimeoutRight (fn : TimedFn) (handle : Nat) (reply : RtosReply) (timeout : UInt32) : Prop :=
  ∃ ticks, fn.handed 100 handle reply timeout = [ticks] ∧
    ticks.toNat = timeout.toNat * 100 / 1000 ∧
    (∀ shorter ≤ timeout, ∀ t ∈ fn.handed 100 handle reply shorter, t ≤ ticks) ∧
    ticks ≠ portMaxDelay ∧
    ticks.toNat ≤ (archOsWaitMs2tick 100 timeout).toNat ∧
    (archOsWaitMs2tick 100 timeout).toNat ≤ ticks.toNat + 1

section

variable (fn : TimedFn) (handle : Nat) (reply : RtosReply) {timeout : UInt32}

/-- Below the constant every one of the functions hands on `pdMS_TO_TICKS` of its timeout. -/
theorem handed_eq (hz : UInt32) (h : timeout < fn.forever) :
    fn.handed hz handle reply timeout = [pdMsToTicks hz timeout] := by
  have hwait : (if timeout < fn.forever then pdMsToTicks hz timeout else portMaxDelay) =
      pdMsToTicks hz timeout := if_pos h
  -- three functions have the test for their constant; `tkl_system_sleep` has none
  cases fn with
  | queuePost => exact congrArg (fun t => [t]) hwait
  | queueFetch => exact congrArg (fun t => [t]) hwait
  | semaphoreWait => exact congrArg (fun t => [t]) hwait
  | systemSleep => rfl

/-- At 100 ticks a second a timeout below the forever constant is converted rightly exactly if a
    hundred times the timeout fits 32 bits. It never becomes `portMAX_DELAY`, and the macro of the
    network interface is always the ceiling. -/
theorem timeout_right_iff (h : timeout < fn.forever) :
    (TimeoutRight fn handle reply timeout ↔ timeout.toNat * 100 < 2 ^ 32) ∧
    (∀ ticks ∈ fn.handed 100 handle reply timeout, ticks ≠ portMaxDelay) ∧
    (archOsWaitMs2tick 100 timeout).toNat = (timeout.toNat + 9) / 10 := by
  have hhanded := handed_eq fn handle reply 100 h
  -- the constants of the adapter and of the network interface are the same number
  have hforever : fn.forever = archOsWaitForever := by cases fn <;> rfl
  have hceil := toNat_archOsWaitMs2tick (hforever ▸ h)
  refine ⟨⟨?_, ?_⟩, ?_, hceil⟩
  · rintro ⟨ticks, hticks, hfloor, -⟩
    rw [hhanded, List.singleton_inj] at hticks
    subst hticks
    exact (pdMsToTicks_eq_floor_iff 100 timeout).mp hfloor
  · intro hfits
    have hfloor : (pdMsToTicks 100 timeout).toNat = timeout.toNat * 100 / 1000 :=
      (pdMsToTicks_eq_floor_iff 100 timeout).mpr hfits
    refine ⟨_, hhanded, hfloor, ?_, pdMsToTicks_ne_portMaxDelay 100 timeout, ?_, ?_⟩
    · intro shorter hle t ht
      rw [handed_eq fn handle reply 100 (UInt32.lt_of_le_of_lt hle h), List.mem_singleton] at ht
      rw [ht]
      exact pdMsToTicks_mono hfits hle
    · rw [hfloor, hceil]
      omega
    · rw [hfloor, hceil]
      omega
  · intro ticks hticks
    rw [hhanded, List.mem_singleton] at hticks
    rw [hticks]
    exact pdMsToTicks_ne_portMaxDelay 100 timeout

end

/-- The longest timeout that is converted rightly, by `tkl_semaphore_wait`. -/
theorem timeout_right_iff_longest :
    TimeoutRight .semaphoreWait 1 ⟨true, false⟩ 42949672 :=
  (timeout_right_iff .semaphoreWait 1 ⟨true, false⟩ (by decide)).1.mpr (by decide)

/-- One millisecond more than the longest timeout, and no tick is left. -/
theorem wrapped_not_right (fn : TimedFn) :
    fn.handed 100 1 ⟨true, false⟩ 42949673 = [0] ∧
      ¬ TimeoutRight fn 1 ⟨true, false⟩ 42949673 := by
  have hhanded : fn.handed 100 1 ⟨true, false⟩ 42949673 = [0] := by
    cases fn <;> decide
  refine ⟨hhanded, ?_⟩
  rintro ⟨ticks, hticks, hfloor, -⟩
  rw [hhanded, List.singleton_inj] at hticks
  rw [← hticks] at hfloor
  exact absurd hfloor (by decide)

/-- A timeout of 42949673 ms is converted wrongly by each of the four functions. -/
theorem not_timeout_right :
    ¬ TimeoutRight .queuePost 1 ⟨true, false⟩ 42949673 ∧
      ¬ TimeoutRight .queueFetch 1 ⟨true, false⟩ 42949673 ∧
      ¬ TimeoutRight .semaphoreWait 1 ⟨true, false⟩ 42949673 ∧
      ¬ TimeoutRight .systemSleep 1 ⟨true, false⟩ 42949673 :=
  ⟨(wrapped_not_right _).2, (wrapped_not_right _).2, (wrapped_not_right _).2,
    (wrapped_not_right _).2⟩

end Ivy.Spec
