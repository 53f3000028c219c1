import Mathlib.Data.UInt

/-!
# The dimmed LED

`LED` fades a channel of the LEDC unit to a duty. Only the first object that is constructed sets its
`m_max_dc`; in a later one the field keeps what its memory holds, which is a parameter here.
-/

namespace Ivy.Native

/-- A call of `ledc_set_fade_time_and_start`. -/
structure LedFade where
  duty : UInt32
  fadeTime : UInt16
  wait : Bool
  deriving DecidableEq, Repr

/-- An object of `LED`, with the fades that were started on it, the last one first. -/
structure Led where
  currentPercent : UInt32
  maxDc : UInt32
  fades : List LedFade
  deriving DecidableEq, Repr

/-- The objects in the order of their construction, and the static variable of the constructor. -/
structure Leds where
  initialized : Bool
  objects : List Led
  deriving DecidableEq, Repr

def Leds.init : Leds := ⟨false, []⟩

namespace Led

/-- `LED::LED`; `memory` is what lies in `m_max_dc` before. -/
def construct (initialized : Bool) (memory : UInt32) : Led where
  currentPercent := 0
  -- LEDC_TIMER_11_BIT
  maxDc := if initialized then memory else 2 ^ 11 - 1
  fades := []

/-- `LED::fade_to_dc`; `none` if it divides by zero. -/
def fadeToDc (l : Led) (target : UInt32) (block : Bool) (fadeT : UInt16) : Option Led :=
  if l.maxDc = 0 then none
  else
    let percent := target * 100 / l.maxDc
    -- no fade to what is shown already, in whole percent
    if l.currentPercent = percent then some l
    else some { l with
      fades := ⟨target, fadeT, block⟩ :: l.fades
      currentPercent := percent }

/-- `LED::fade_to_end` -/
def fadeToEnd (l : Led) (on block : Bool) (fadeT : UInt16) : Option Led :=
  if on then l.fadeToDc l.maxDc block fadeT else l.fadeToDc 0 block fadeT

end Led

end Ivy.Native
