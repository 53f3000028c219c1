import Ivy.Native.Tkl
import Mathlib.Data.List.Basic
import Mathlib.Algebra.Group.Nat.Defs

/-!
# Firmware updates

`tkl_ota` receives a firmware image in packs and writes it to the next update partition.
A session goes from `tkl_ota_start_notify` over the packs to `tkl_ota_end_notify`, which
makes the partition the boot partition if the number of bytes written was the announced
size. The calls of ESP-IDF are logged with their outcome.
-/

namespace Ivy.Native

/-- `TKL_OTA_STATE_T` -/
inductive OtaState
  | init
  | begin
  | inProgress
  | success
  deriving DecidableEq, Repr

/-- `TUYA_OTA_DATA_T`; the field `len` is the length of the data. -/
structure OtaPack where
  offset : UInt32
  data : List UInt8
  fits : data.length < 2 ^ 32
  deriving DecidableEq, Repr

/-- `pack->len` -/
def OtaPack.len (pack : OtaPack) : UInt32 := .ofNat pack.data.length

/-- The calls of ESP-IDF. -/
inductive OtaEffect
  /-- `esp_ota_begin`, with the handle if it has succeeded -/
  | begin (imageSize : UInt32) (handle : Option Nat)
  | write (handle : Nat) (data : List UInt8) (ok : Bool)
  /-- `esp_ota_end`; the handle is released in either case -/
  | finish (handle : Nat) (ok : Bool)
  | abort (handle : Nat)
  | setBootPartition (partition : Option Nat) (ok : Bool)
  | restart
  deriving DecidableEq, Repr

/-- `tkl_ota_handle`, with the numbering of the handles in ESP-IDF and the log. -/
structure TklOta where
  state : OtaState
  /-- 0 is no handle -/
  handle : Nat
  partition : Option Nat
  imageSize : UInt32
  offsetImageSize : UInt32
  /-- `s_ota_ops_last_handle` -/
  lastHandle : Nat
  log : List OtaEffect
  deriving DecidableEq, Repr

def TklOta.init : TklOta where
  state := .init
  handle := 0
  partition := none
  imageSize := 0
  offsetImageSize := 0
  lastHandle := 0
  log := []

namespace TklOta

variable (o : TklOta)

def emit (e : OtaEffect) : TklOta := { o with log := o.log ++ [e] }

/-- `TKL_OTA_UPGRADE_HANDLE_INIT` -/
def handleInit : TklOta :=
  { o with state := .init, handle := 0, partition := none, imageSize := 0, offsetImageSize := 0 }

/-- `tkl_ota_start_notify`; `partition` is the result of
    `esp_ota_get_next_update_partition`, `begun` the outcome of `esp_ota_begin`. -/
def startNotify (imageSize : UInt32) (partition : Option Nat) (begun : Bool) :
    OperateRet × TklOta :=
  if imageSize = 0 then (.invalidParm, o)
  -- a session that was not ended blocks the next one
  else if o.state ≠ .init then (.comError, o)
  else
    let o := { o.handleInit with partition := partition }
    -- the state is still `init`
    if partition = none then (.comError, o)
    else if !begun then
      let o := o.emit (.begin imageSize none)
      (.comError, { o with handle := 0, partition := none })
    else
      let handle := o.lastHandle + 1
      let o := o.emit (.begin imageSize (some handle))
      let o := { o with handle := handle, lastHandle := handle }
      (.ok, { o with imageSize := imageSize, state := .begin })

/-- The end of `tkl_ota_data_process`, after a successful write of `len` bytes. -/
def advance (len : UInt32) : TklOta :=
  let o := { o with offsetImageSize := o.offsetImageSize + len }
  -- the first pack
  let o := if o.state = .begin then { o with state := .inProgress } else o
  if o.state = .inProgress ∧ o.offsetImageSize = o.imageSize then { o with state := .success }
  else o

/-- `tkl_ota_data_process` on a pack and the value `remain_len` points to, `none` for a
    null pointer; `written` is the outcome of `esp_ota_write`. -/
def dataProcess (pack : Option OtaPack) (remainLen : Option UInt32) (written : Bool) :
    OperateRet × Option UInt32 × TklOta :=
  match pack, remainLen with
  | some pack, some remain =>
    if o.state = .init then (.comError, some remain, o)
    -- a pack behind the end is accepted and ignored
    else if o.state = .success then (.ok, some 0, o)
    else
      let o := o.emit (.write o.handle pack.data written)
      if !written then (.comError, some remain, o)
      -- the offset of the pack is not looked at
      else (.ok, some remain, o.advance pack.len)
  | _, _ => (.invalidParm, remainLen, o)

/-- `tkl_ota_end_notify`; `ended` and `booted` are the outcomes of `esp_ota_end` and
    `esp_ota_set_boot_partition`. -/
def endNotify (reset ended booted : Bool) : OperateRet × TklOta :=
  -- `esp_ota_abort` is not called: the handle is lost
  if o.state ≠ .success then (.comError, o.handleInit)
  else
    let o := o.emit (.finish o.handle ended)
    if !ended then (.comError, o.handleInit)
    else
      let o := o.emit (.setBootPartition o.partition booted)
      if !booted then (.comError, o.handleInit)
      else
        let o := o.handleInit
        (.ok, if reset then o.emit .restart else o)

end TklOta

end Ivy.Native
