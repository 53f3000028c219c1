import Ivy.ForStd.Transition
import Ivy.Native.TklPin
import Mathlib.Data.List.NodupEquivFin

/-!
# Interrupts of different pins

The service of the GPIO driver is installed and removed with every pin. So a pin gets its
interrupt only while no other pin has one, and giving one pin up takes the interrupts of all
of them away.
-/

namespace Ivy.Spec

open Ivy.Native Ivy.Lts

/-! ## Calls -/

/-- The pins of the table; all of them are valid. -/
abbrev Pin : Type := Fin pinmap.length

def Pin.gpio (pin : Pin) : Nat := pinmap.get pin

/-- No two pins share a port. -/
theorem Pin.gpio_injective : Function.Injective Pin.gpio :=
  List.nodup_iff_injective_get.mp (by decide)

/-- Every pin is a port of the chip. -/
theorem Pin.isValidGpio (pin : Pin) : Native.isValidGpio pin.gpio = true := by
  have hall : ∀ gpioNum ∈ pinmap, Native.isValidGpio gpioNum = true := by decide
  exact hall _ (List.get_mem ..)

/-- The entry of the pin in the table. -/
theorem Pin.getElem? (pin : Pin) : pinmap[pin.val]? = some pin.gpio :=
  List.getElem?_eq_getElem pin.isLt

variable {κ α : Type}

/-- The calls on valid pins and with valid modes. -/
inductive GpioCall (κ α : Type)
  | irqInit (pin : Pin) (mode : GpioIrqMode) (cb : Option κ) (arg : Option α)
  | deinit (pin : Pin)
  deriving DecidableEq, Repr

/-- The call, with memory and an interrupt at hand. -/
def gpioCall (t : TklPin κ α) : GpioCall κ α → OperateRet × TklPin κ α
  | .irqInit pin mode cb arg => t.irqInit pin (some ⟨some mode, cb, arg⟩) true true
  | .deinit pin => t.deinit pin

/-- The callback that an interrupt of the pin leads to, with its argument. -/
def installed (t : TklPin κ α) (pin : Pin) : Option (κ × Option α) :=
  t.isrFunc.bind fun table => (table pin.gpio).1.map fun cb => (cb, (table pin.gpio).2)

/-- The module with what was asked for. -/
structure PinHistory (κ α : Type) where
  pins : TklPin κ α
  /-- the callback given last, with its argument -/
  given : Pin → Option (κ × Option α)
  /-- the last successful call on the pin was `tkl_gpio_irq_init` -/
  active : Pin → Bool
  /-- an interrupt was set up since a pin was given up last -/
  inUse : Bool

def PinHistory.init : PinHistory κ α := ⟨.init, fun _ => none, fun _ => false, false⟩

def PinHistory.step (h : PinHistory κ α) (c : GpioCall κ α) : PinHistory κ α :=
  match c with
  | .irqInit pin _ cb arg =>
    { pins := (gpioCall h.pins c).2
      given := Function.update h.given pin (cb.map fun cb => (cb, arg))
      active :=
        if (gpioCall h.pins c).1 = .ok then Function.update h.active pin true else h.active
      inUse := true }
  | .deinit pin =>
    { h with
      pins := (gpioCall h.pins c).2
      active :=
        if (gpioCall h.pins c).1 = .ok then Function.update h.active pin false else h.active
      inUse := false }

/-- What the pin's interrupt is to lead to. -/
def PinHistory.wanted (h : PinHistory κ α) (pin : Pin) : Option (κ × Option α) :=
  if h.active pin then h.given pin else none

/-- The call succeeds if it sets up an interrupt, and after it every pin has the callback that
    was asked for. -/
def PinsIndependent (h : PinHistory κ α) (c : GpioCall κ α) : Prop :=
  (∀ pin mode cb arg, c = .irqInit pin mode cb arg → (gpioCall h.pins c).1 = .ok) ∧
  ∀ pin, installed (h.step c).pins pin = (h.step c).wanted pin

/-- An interrupt is set up only when none was since a pin was given up last, and a pin is given
    up only when no other has a callback. -/
def OnePin (h : PinHistory κ α) : GpioCall κ α → Prop
  | .irqInit _ _ _ _ => h.inUse = false
  | .deinit pin => ∀ other ≠ pin, h.wanted other = none

/-- What is installed is what was asked for, and the service is there when it is in use. -/
structure PinHistory.AsAsked (h : PinHistory κ α) : Prop where
  installed : ∀ pin, Spec.installed h.pins pin = h.wanted pin
  service : h.pins.isrFunc.isSome = h.inUse

/-- Nothing was asked for in the beginning. -/
theorem asAsked_init : (PinHistory.init : PinHistory κ α).AsAsked := ⟨fun _ => rfl, rfl⟩

section

variable {t : TklPin κ α} {pin : Pin}

/-! ## One call -/

/-- With the service installed, an interrupt cannot be set up. -/
theorem irqInit_installed (pin : Pin) (h : t.isrFunc.isSome = true) (mode : GpioIrqMode)
    (cb : Option κ) (arg : Option α) : (gpioCall t (.irqInit pin mode cb arg)).1 = .comError := by
  -- the calls before it succeed, and `gpio_install_isr_service` is the one that fails
  simp only [gpioCall, TklPin.irqInit, pin.getElem?, TklPin.gpioSetIntrType, pin.isValidGpio,
    TklPin.gpioSetDirectionInput, TklPin.gpioInstallIsrService, h, if_true, Bool.not_true,
    Bool.not_false, Bool.false_eq_true, if_false]

/-- Without it, the pin gets its interrupt in a new table. -/
theorem irqInit_ok (pin : Pin) (h : t.isrFunc = none) (mode : GpioIrqMode) (cb : Option κ)
    (arg : Option α) :
    (gpioCall t (.irqInit pin mode cb arg)).1 = .ok ∧
      (gpioCall t (.irqInit pin mode cb arg)).2.isrFunc =
        some (Function.update (fun _ => (none, none)) pin.gpio (cb, arg)) := by
  simp only [gpioCall, TklPin.irqInit, pin.getElem?, TklPin.gpioSetIntrType, pin.isValidGpio,
    TklPin.gpioSetDirectionInput, TklPin.gpioInstallIsrService, TklPin.gpioIsrHandlerAdd,
    TklPin.gpioIsrHandlerSet, h, Option.isSome_none, if_true, Bool.not_true,
    Bool.false_eq_true, if_false, Function.update_self, and_self]

/-- Giving a pin up removes the service. -/
theorem deinit_ok :
    (gpioCall t (.deinit pin)).1 = .ok ∧ (gpioCall t (.deinit pin)).2.isrFunc = none := by
  simp only [gpioCall, TklPin.deinit, pin.getElem?, TklPin.gpioResetPin,
    TklPin.gpioUninstallIsrService, and_self]

/-- Without a service no handler is installed. -/
theorem installed_of_none (h : t.isrFunc = none) (other : Pin) : installed t other = none := by
  simp [installed, h]

/-- A new table has the callback of one pin. -/
theorem installed_of_new {cb : Option κ} {arg : Option α}
    (h : t.isrFunc = some (Function.update (fun _ => (none, none)) pin.gpio (cb, arg)))
    (other : Pin) :
    installed t other = if other = pin then cb.map fun cb => (cb, arg) else none := by
  by_cases heq : other = pin
  · subst heq
    simp [installed, h]
  · -- the table is indexed by port, and the ports of two pins differ
    have hne : other.gpio ≠ pin.gpio := fun hgpio => heq (Pin.gpio_injective hgpio)
    simp [installed, h, heq, Function.update_of_ne hne]

end

/-! ## Sequences of calls -/

section

variable {h : PinHistory κ α} {pin : Pin}

/-- A service that is not in use is not there. -/
theorem PinHistory.AsAsked.isrFunc (hs : h.AsAsked) (huse : h.inUse = false) :
    h.pins.isrFunc = none := by
  have hsome := hs.service
  rw [huse] at hsome
  exact Option.isSome_eq_false_iff.mp hsome |> Option.isNone_iff_eq_none.mp

/-- An interrupt that is set up in a new table is the only one, as asked for. -/
theorem PinHistory.AsAsked.irqInit (hs : h.AsAsked) (huse : h.inUse = false)
    (mode : GpioIrqMode) (cb : Option κ) (arg : Option α) :
    (h.step (.irqInit pin mode cb arg)).AsAsked := by
  have hnone := hs.isrFunc huse
  obtain ⟨hret, htable⟩ := irqInit_ok pin hnone mode cb arg
  constructor
  · intro other
    show Spec.installed (gpioCall h.pins (.irqInit pin mode cb arg)).2 other = _
    rw [installed_of_new htable]
    simp only [PinHistory.step, PinHistory.wanted, hret, if_true]
    by_cases heq : other = pin
    · subst heq
      simp
    · -- no other pin had a callback, because there was no table
      have hwanted : h.wanted other = none := by
        -- what was wanted was installed, and without a service nothing is
        rw [← hs.installed other]
        exact installed_of_none hnone other
      simpa [heq, PinHistory.wanted] using hwanted.symm
  · show (gpioCall h.pins (.irqInit pin mode cb arg)).2.isrFunc.isSome = true
    rw [htable]
    rfl

/-- What is wanted after a pin is given up. -/
theorem wanted_deinit (other : Pin) :
    (h.step (.deinit pin)).wanted other = if other = pin then none else h.wanted other := by
  simp only [PinHistory.step, PinHistory.wanted, deinit_ok.1, if_true]
  by_cases heq : other = pin
  · subst heq
    simp
  · simp [heq]

/-- After a pin is given up no pin has a callback. -/
theorem installed_deinit (other : Pin) : installed (h.step (.deinit pin)).pins other = none :=
  installed_of_none deinit_ok.2 other

/-- Giving up the last pin removes the service. -/
theorem PinHistory.AsAsked.deinit (halone : ∀ other ≠ pin, h.wanted other = none) :
    (h.step (.deinit pin)).AsAsked := by
  constructor
  · intro other
    rw [installed_deinit, wanted_deinit]
    by_cases heq : other = pin
    · rw [if_pos heq]
    · rw [if_neg heq, halone other heq]
  · show (gpioCall h.pins (.deinit pin)).2.isrFunc.isSome = false
    rw [deinit_ok.2]
    rfl

/-- With one pin at a time what is installed is what was asked for. -/
theorem OnePin.asAsked {c : GpioCall κ α} (hc : OnePin h c) (hs : h.AsAsked) :
    (h.step c).AsAsked := by
  cases c with
  | irqInit pin mode cb arg => exact hs.irqInit hc mode cb arg
  | deinit pin => exact .deinit hc

/-- With two of them it is not. -/
theorem pinsIndependent_iff_onePin {c : GpioCall κ α} (hs : h.AsAsked) :
    PinsIndependent h c ↔ OnePin h c := by
  constructor
  · rintro ⟨hret, hpins⟩
    cases c with
    | irqInit pin mode cb arg =>
      -- in use, the service is there and the call fails
      apply Bool.eq_false_iff.mpr
      intro huse
      have hfail := irqInit_installed pin (hs.service.trans huse) mode cb arg
      rw [hret pin mode cb arg rfl] at hfail
      exact nomatch hfail
    | deinit pin =>
      -- giving up a pin removes the handlers of the others, which may therefore want none
      intro other hne
      have hother := hpins other
      rw [installed_deinit, wanted_deinit, if_neg hne] at hother
      exact hother.symm
  · intro hc
    refine ⟨?_, (hc.asAsked hs).installed⟩
    rintro pin mode cb arg rfl
    exact (irqInit_ok pin (hs.isrFunc hc) mode cb arg).1

end

/-- For every sequence of calls: every interrupt can be set up, and every pin has the callback
    asked for last, exactly if an interrupt is only set up when none was since a pin was given
    up, and a pin is only given up when no other has a callback. -/
theorem pins_independent_iff (calls : List (GpioCall κ α)) :
    Always PinHistory.step PinsIndependent .init calls ↔
      Always PinHistory.step OnePin .init calls :=
  always_congr (I := PinHistory.AsAsked) (fun _ _ hs => pinsIndependent_iff_onePin hs)
    (fun _ _ hs hc => hc.asAsked hs) asAsked_init

/-- A second pin gets no interrupt, and giving up a pin that has none takes the callback of
    another away. -/
theorem not_pins_independent :
    ∃ first second : Pin,
      let setUp : GpioCall Unit Unit := .irqInit first .rise (some ()) none
      ¬ Always PinHistory.step PinsIndependent .init
          [setUp, .irqInit second .rise (some ()) none] ∧
        (gpioCall (PinHistory.init.step setUp).pins
          (.irqInit second .rise (some ()) none)).1 = .comError ∧
      ¬ Always PinHistory.step PinsIndependent .init [setUp, .deinit second] ∧
        ((PinHistory.init.step setUp).step (.deinit second)).active first = true ∧
        installed ((PinHistory.init.step setUp).step (.deinit second)).pins first = none := by
  refine ⟨⟨0, by decide⟩, ⟨1, by decide⟩, ?_, rfl, ?_, rfl, rfl⟩
  · intro h
    exact nomatch h.2.1.1 ⟨1, by decide⟩ .rise (some ()) none rfl
  · intro h
    have hfirst := h.2.1.2 ⟨0, by decide⟩
    rw [installed_deinit, wanted_deinit] at hfirst
    exact nomatch hfirst

end Ivy.Spec
