import Ivy.Native.Tkl
import Mathlib.Logic.Function.Basic

/-!
# The serial ports

`tkl_uart` drives two serial ports. The driver of a port has a queue of events, filled by
interrupts. One task, started when a callback is registered, takes events from the queue in
`tkl_uart_rx_queue` and calls the callback of its port; the queue variable, the task and
nothing else are shared by the ports. The task learns its port from a pointer to a local
variable of the call that has created it.

A queue is named by its port. `tkl_uart_deinit` deletes the driver with its queue, then the task and
then clears the queue variable, so that in between the task can still reach for the queue.
-/

namespace Ivy.Native

/-! ## Configuration -/

inductive UartDataLen
  | bits5
  | bits6
  | bits7
  | bits8
  deriving DecidableEq, Repr

inductive UartStopLen
  | bits1
  | bits2
  | bits1AndHalf
  deriving DecidableEq, Repr

inductive UartParity
  | none
  | even
  | odd
  deriving DecidableEq, Repr

/-- `TUYA_UART_BASE_CFG_T`; `none` is a value that the code has no branch for. -/
structure UartBaseCfg where
  databits : Option UartDataLen
  stopbits : Option UartStopLen
  parity : Option UartParity
  baudrate : UInt32
  deriving DecidableEq, Repr

/-- `uart_config_t`, without its constant fields. -/
structure UartConfig where
  dataBits : UartDataLen
  stopBits : UartStopLen
  parity : UartParity
  baudRate : UInt32
  deriving DecidableEq, Repr

def UartBaseCfg.convert (cfg : UartBaseCfg) : Option UartConfig :=
  match cfg.databits, cfg.stopbits, cfg.parity with
  | some dataBits, some stopBits, some parity => some ⟨dataBits, stopBits, parity, cfg.baudrate⟩
  | _, _, _ => none

/-! ## The ports -/

/-- `uart_event_t`: `UART_DATA`, or one of the events that the task leaves alone. -/
inductive UartEvent
  | data
  | other
  deriving DecidableEq, Repr

/-- The size given to `uart_driver_install`. -/
def eventQueueSize : Nat := 10

structure UartDriver where
  config : UartConfig
  /-- the events queued, the oldest first -/
  events : List UartEvent
  deriving DecidableEq, Repr

/-- Where `tkl_uart_rx_process` is. -/
inductive UartPc
  /-- created, the argument not read yet -/
  | start
  /-- at the condition of the loop -/
  | head
  /-- waiting in `xQueueReceive` on the queue of a port -/
  | receive (queue : Fin 2)
  /-- at the `switch` over the event, which it has taken from the queue of the port `source` -/
  | handle (source : Fin 2) (e : UartEvent)
  | ended
  deriving DecidableEq, Repr

structure UartTask where
  pc : UartPc
  uartNum : Nat
  deriving DecidableEq, Repr

/-- A call of a callback: for an event of which port, and what the callback is passed. -/
structure RxCall (κ : Type) where
  source : Fin 2
  uartNum : Nat
  cb : κ
  deriving DecidableEq, Repr

/-- Where the caller of the module is. -/
inductive UartCaller (κ : Type)
  | idle
  /-- in `tkl_uart_deinit`, the driver deleted and the task not yet -/
  | deinitTask
  /-- in `tkl_uart_deinit`, before the queue variable is cleared -/
  | deinitQueue
  /-- in `tkl_uart_rx_irq_cb_reg`, before the creation of the task -/
  | regCreate (port : Fin 2) (rxCb : Option κ)
  /-- in `tkl_uart_rx_irq_cb_reg`, after it -/
  | registering (port : Fin 2) (rxCb : Option κ)
  deriving DecidableEq, Repr

/-- The variables of the module, the drivers and the task; callbacks are of the type `κ`. -/
structure TklUart (κ : Type) where
  driver : Fin 2 → Option UartDriver
  /-- `tkl_uart_rx_queue` -/
  rxQueue : Option (Fin 2)
  /-- `tkl_uart_thread` -/
  thread : Option UartTask
  /-- `uart_rx_cb` -/
  rxCb : Fin 2 → Option κ
  caller : UartCaller κ
  log : List (RxCall κ)
  /-- `uart_rx_cb` was read outside of its bounds, or a queue used after its deletion -/
  fault : Bool

namespace TklUart

variable {κ : Type}

def init : TklUart κ where
  driver _ := none
  rxQueue := none
  thread := none
  rxCb _ := none
  caller := .idle
  log := []
  fault := false

variable (u : TklUart κ)

/-- `tkl_uart_init` on a configuration, `none` for a null pointer. The driver is installed
    once; installing it again fails, after its parameters were set. -/
def uartInit (port : Fin 2) (cfg : Option UartBaseCfg) : OperateRet × TklUart κ :=
  match cfg.bind UartBaseCfg.convert with
  | none => (.invalidParm, u)
  | some config =>
    match u.driver port with
    -- `uart_driver_install` fails behind `uart_param_config`
    | some d =>
      (.comError,
        { u with driver := Function.update u.driver port (some { d with config := config }) })
    | none =>
      (.ok,
        { u with
          driver := Function.update u.driver port (some ⟨config, []⟩)
          rxQueue := some port })

/-- `tkl_uart_deinit`, up to the deletion of the driver; deleting one that is not installed
    succeeds. -/
def uartDeinit (port : Fin 2) : TklUart κ :=
  { u with driver := Function.update u.driver port none, caller := .deinitTask }

/-- `vTaskDelete(tkl_uart_thread)` in `tkl_uart_deinit` -/
def uartDeinitTask : TklUart κ := { u with thread := none, caller := .deinitQueue }

/-- The rest of `tkl_uart_deinit`. -/
def uartDeinitReturn : OperateRet × TklUart κ := (.ok, { u with rxQueue := none, caller := .idle })

/-- `tkl_uart_rx_irq_cb_reg`, up to the deletion of the task. -/
def rxIrqCbReg (port : Fin 2) (rxCb : Option κ) : TklUart κ :=
  match u.rxQueue with
  | none => u
  -- the task of the other port is deleted as well: there is one for both
  | some _ => { u with thread := none, caller := .regCreate port rxCb }

/-- `xTaskCreate` in `tkl_uart_rx_irq_cb_reg` -/
def rxIrqCbRegCreate (port : Fin 2) (rxCb : Option κ) : TklUart κ :=
  { u with thread := some ⟨.start, 0⟩, caller := .registering port rxCb }

/-- The rest of `tkl_uart_rx_irq_cb_reg`. -/
def rxIrqCbRegReturn (port : Fin 2) (rxCb : Option κ) : TklUart κ :=
  { u with rxCb := Function.update u.rxCb port rxCb, caller := .idle }

/-- The driver of a port queues an event, if there is room. -/
def interrupt (port : Fin 2) (e : UartEvent) : TklUart κ :=
  match u.driver port with
  | none => u
  | some d =>
    if d.events.length < eventQueueSize then
      let d := { d with events := d.events ++ [e] }
      { u with driver := Function.update u.driver port (some d) }
    else u

/-! ## The task -/

/-- `uart_num = *(uart_port_t *)args`. After the call that has created the task has returned,
    the pointer leads to whatever is on the stack there. -/
def readArgs (stack : Nat) : TklUart κ :=
  let uartNum :=
    match u.caller with
    -- the local variable is still there
    | .registering port _ => port
    | _ => stack
  { u with thread := some ⟨.head, uartNum⟩ }

/-- The first half of the condition of the loop. -/
def readQueue (uartNum : Nat) : TklUart κ :=
  match u.rxQueue with
  | none => { u with thread := some ⟨.ended, uartNum⟩ }
  | some queue => { u with thread := some ⟨.receive queue, uartNum⟩ }

/-- `xQueueReceive`; `none` while the queue is empty. -/
def receive (queue : Fin 2) (uartNum : Nat) : Option (TklUart κ) :=
  match u.driver queue with
  -- the queue was deleted with the driver
  | none => some { u with fault := true }
  | some ⟨_, []⟩ => none
  | some ⟨config, e :: rest⟩ =>
    some { u with
      driver := Function.update u.driver queue (some ⟨config, rest⟩)
      thread := some ⟨.handle queue e, uartNum⟩ }

/-- The body of the loop on an event taken from the queue of the port `source`. -/
def process (source : Fin 2) (e : UartEvent) (uartNum : Nat) : TklUart κ :=
  let u := { u with thread := some ⟨.head, uartNum⟩ }
  match e with
  | .other => u
  | .data =>
    -- `uart_rx_cb[uart_num]`, without a test of the index
    if h : uartNum < 2 then
      match u.rxCb ⟨uartNum, h⟩ with
      | some cb => { u with log := u.log ++ [⟨source, uartNum, cb⟩] }
      | none => u
    else { u with fault := true }

end TklUart

end Ivy.Native
