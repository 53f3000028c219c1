/-!
# Timeouts in ticks

The adapter takes timeouts in milliseconds and FreeRTOS takes them in ticks. `pdMS_TO_TICKS`
multiplies first, in the 32 bits of `TickType_t`; the macro of the network interface divides first.
The tick rate `configTICK_RATE_HZ` is the parameter `hz`.
-/

namespace Ivy.Native

/-- `portMAX_DELAY` -/
def portMaxDelay : UInt32 := 0xffffffff

/-- `pdMS_TO_TICKS` -/
def pdMsToTicks (hz timeInMs : UInt32) : UInt32 := timeInMs * hz / 1000

/-- `portTICK_PERIOD_MS` -/
def portTickPeriodMs (hz : UInt32) : UInt32 := 1000 / hz

/-- `ARCH_OS_WAIT_FOREVER` -/
def archOsWaitForever : UInt32 := 0xffffffff

/-- `ARCH_OS_WAIT_MS2TICK` -/
def archOsWaitMs2tick (hz ms : UInt32) : UInt32 :=
  if ms = archOsWaitForever then archOsWaitForever
  else
    ms / portTickPeriodMs hz +
      (ms % portTickPeriodMs hz + portTickPeriodMs hz - 1) / portTickPeriodMs hz

/-- A call into FreeRTOS, with the ticks it may wait. -/
inductive RtosCall where
  | queueSend (ticks : UInt32)
  | queueSendFromISR
  | queueReceive (ticks : UInt32)
  | queueReceiveFromISR
  | semaphoreTake (ticks : UInt32)
  | semaphoreTakeFromISR
  | yieldFromISR
  | taskDelay (ticks : UInt32)
  deriving DecidableEq, Repr

/-- What FreeRTOS answers: the result, and, in an interrupt, `xHigherPriorityTaskWoken`. -/
structure RtosReply where
  ret : Bool
  woken : Bool
  deriving DecidableEq, Repr

def oprtOk : Int := 0
def oprtOsAdapterInvalidParm : Int := -0x6901
def oprtOsAdapterSemWaitFailed : Int := -0x6601
def oprtOsAdapterQueueSendFail : Int := -0x6701
def oprtOsAdapterQueueRecvFail : Int := -0x6702

/-- `TKL_QUEUE_WAIT_FROEVER` -/
def tklQueueWaitFroever : UInt32 := 0xffffffff

/-- `TKL_SEM_WAIT_FOREVER` -/
def tklSemWaitForever : UInt32 := 0xffffffff

/-- The body that the three waiting functions share: the result and the calls that were made. -/
def tklWait (timed : UInt32 → RtosCall) (fromISR : RtosCall) (forever : UInt32) (fail : Int)
    (hz : UInt32) (handle : Option Nat) (inIsr : Bool) (reply : RtosReply) (timeout : UInt32) :
    Int × List RtosCall :=
  if handle = none then (oprtOsAdapterInvalidParm, [])
  else
    let calls :=
      -- an interrupt must not wait, so that the timeout is not looked at there
      if inIsr then fromISR :: if reply.ret && reply.woken then [.yieldFromISR] else []
      -- `xTicksToWait` is `portMAX_DELAY` unless the timeout is below the constant
      else [timed (if timeout < forever then pdMsToTicks hz timeout else portMaxDelay)]
    (if reply.ret then oprtOk else fail, calls)

/-- `tkl_queue_post` -/
def tklQueuePost : UInt32 → Option Nat → Bool → RtosReply → UInt32 → Int × List RtosCall :=
  tklWait .queueSend .queueSendFromISR tklQueueWaitFroever oprtOsAdapterQueueSendFail

/-- `tkl_queue_fetch` -/
def tklQueueFetch : UInt32 → Option Nat → Bool → RtosReply → UInt32 → Int × List RtosCall :=
  tklWait .queueReceive .queueReceiveFromISR tklQueueWaitFroever oprtOsAdapterQueueRecvFail

/-- `tkl_semaphore_wait` -/
def tklSemaphoreWait : UInt32 → Option Nat → Bool → RtosReply → UInt32 → Int × List RtosCall :=
  tklWait .semaphoreTake .semaphoreTakeFromISR tklSemWaitForever oprtOsAdapterSemWaitFailed

/-- `tkl_system_sleep`; it has no value that means forever. -/
def tklSystemSleep (hz numMs : UInt32) : List RtosCall := [.taskDelay (pdMsToTicks hz numMs)]

end Ivy.Native
