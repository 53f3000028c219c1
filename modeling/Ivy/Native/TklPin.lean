import Ivy.Native.Tkl
import Mathlib.Logic.Function.Basic

/-!
# Interrupts of the pins

`tkl_pin` gives every pin an interrupt handler. The handlers lie in a table of the GPIO
driver of ESP-IDF that all pins share: the service with its table is installed by every
`tkl_gpio_irq_init` and removed by every `tkl_gpio_deinit`.

The pins and the valid GPIO numbers are those of the ESP32-S3.
-/

namespace Ivy.Native

/-- The column `gpio` of `pinmap`. -/
def pinmap : List Nat :=
  [ 0, 1, 2, 3, 4, 5, 6, 7, 8, 9, 10, 11, 12, 13, 14, 15, 16, 17, 18, 19, 20, 21, 26, 27,
    28, 29, 30, 31, 32, 33, 34, 35, 36, 37, 38, 39, 40, 41, 42, 43, 44, 45, 46, 47, 48 ]

/-- `GPIO_IS_VALID_GPIO` -/
def isValidGpio (gpioNum : Nat) : Bool :=
  gpioNum < 49 && !(22 ≤ gpioNum && gpioNum ≤ 25)

/-- `TUYA_GPIO_IRQ_E` -/
inductive GpioIrqMode
  | rise
  | fall
  | riseFall
  | low
  | high
  deriving DecidableEq, Repr

/-- `gpio_int_type_t` -/
inductive GpioIntr
  | disable
  | posedge
  | negedge
  | anyedge
  | lowLevel
  | highLevel
  deriving DecidableEq, Repr

/-- The `switch` of `tkl_gpio_irq_init`. -/
def GpioIrqMode.trigger : GpioIrqMode → GpioIntr
  | rise => .posedge
  | fall => .negedge
  | riseFall => .anyedge
  | low => .lowLevel
  | high => .highLevel

/-- `TUYA_GPIO_IRQ_T` with callbacks of the type `κ` and arguments of the type `α`. A `mode`
    without a case in the code is `none`. -/
structure GpioIrq (κ α : Type) where
  mode : Option GpioIrqMode
  cb : Option κ
  arg : Option α
  deriving DecidableEq, Repr

/-- The columns `cb` and `args` of `pinmap`, and the GPIO driver. -/
structure TklPin (κ α : Type) where
  cb : Nat → Option κ
  args : Nat → Option α
  /-- `gpio_isr_func`; `none` while the service is not installed -/
  isrFunc : Option (Nat → Option κ × Option α)
  intrType : Nat → GpioIntr

namespace TklPin

variable {κ α : Type}

def init : TklPin κ α where
  cb _ := none
  args _ := none
  isrFunc := none
  intrType _ := .disable

variable (t : TklPin κ α)

/-! ## The GPIO driver -/

def gpioSetIntrType (gpioNum : Nat) (intrType : GpioIntr) : Bool × TklPin κ α :=
  if isValidGpio gpioNum then
    (true, { t with intrType := Function.update t.intrType gpioNum intrType })
  else (false, t)

/-- `gpio_set_direction` with `GPIO_MODE_INPUT` -/
def gpioSetDirectionInput (gpioNum : Nat) : Bool := isValidGpio gpioNum

/-- `calloc` and `register` are the outcomes of the allocation of the table and of
    `gpio_isr_register`. -/
def gpioInstallIsrService (calloc register : Bool) : Bool × TklPin κ α :=
  -- `ESP_ERR_INVALID_STATE`
  if t.isrFunc.isSome then (false, t)
  else if !calloc then (false, t)
  -- the table stays when the registration fails
  else (register, { t with isrFunc := some fun _ => (none, none) })

/-- Write an entry of the table, as `gpio_isr_handler_add` and `gpio_isr_handler_remove` do. -/
def gpioIsrHandlerSet (gpioNum : Nat) (cb : Option κ) (args : Option α) : Bool × TklPin κ α :=
  match t.isrFunc with
  | none => (false, t)
  | some table =>
    if isValidGpio gpioNum then
      (true, { t with isrFunc := some (Function.update table gpioNum (cb, args)) })
    else (false, t)

def gpioIsrHandlerAdd (gpioNum : Nat) (cb : Option κ) (args : Option α) : Bool × TklPin κ α :=
  t.gpioIsrHandlerSet gpioNum cb args

def gpioIsrHandlerRemove (gpioNum : Nat) : Bool × TklPin κ α :=
  t.gpioIsrHandlerSet gpioNum none none

def gpioUninstallIsrService : TklPin κ α := { t with isrFunc := none }

def gpioResetPin (gpioNum : Nat) : TklPin κ α :=
  { t with intrType := Function.update t.intrType gpioNum .disable }

/-! ## The adapter -/

/-- `tkl_gpio_irq_init`; a null pointer for the configuration is `none`. -/
def irqInit (pinId : Nat) (cfg : Option (GpioIrq κ α)) (calloc register : Bool) :
    OperateRet × TklPin κ α :=
  match cfg, pinmap[pinId]? with
  | some cfg, some gpioNum =>
    let t :=
      { t with
        cb := Function.update t.cb pinId cfg.cb
        args := Function.update t.args pinId cfg.arg }
    match cfg.mode with
    -- the callback is stored already
    | none => (.notSupported, t)
    | some mode =>
      let (set, t) := t.gpioSetIntrType gpioNum mode.trigger
      if !set then (.comError, t)
      else if !gpioSetDirectionInput gpioNum then (.comError, t)
      else
        let (installed, t) := t.gpioInstallIsrService calloc register
        -- installing a second time is an error for this function
        if !installed then (.comError, t)
        else
          let (added, t) := t.gpioIsrHandlerAdd gpioNum (t.cb pinId) (t.args pinId)
          if !added then (.comError, t) else (.ok, t)
  | _, _ => (.invalidParm, t)

/-- `tkl_gpio_deinit` -/
def deinit (pinId : Nat) : OperateRet × TklPin κ α :=
  match pinmap[pinId]? with
  | none => (.invalidParm, t)
  | some gpioNum =>
    let (_, t) := t.gpioIsrHandlerRemove gpioNum
    -- the table of all pins is freed
    let t := t.gpioUninstallIsrService
    (.ok, t.gpioResetPin gpioNum)

end TklPin

end Ivy.Native
