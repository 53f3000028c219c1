import Mathlib.Data.List.Basic

/-!
# The device's credentials

The uuid and the key of the device are kept in two places: a file on the SD card and
the non-volatile storage (NVS). `get_credentials` reads both and copies the pair to the
place that lacks it; `register_in_cloud` writes the pair the server has issued to the SD
card. Neither helper that stores a pair is part of the source; `ArgOrder` is the order in
which they take their two arguments.
-/

namespace Ivy.Native

/-- A stored pair; a component that is absent is empty. -/
@[ext]
structure Credentials where
  uuid : String
  key : String
  deriving DecidableEq, Repr

/-- A place that holds nothing. -/
def Credentials.empty : Credentials := ⟨"", ""⟩

/-- `has_credentials`: both components are there. -/
def hasCredentials (c : Credentials) : Bool :=
  c.uuid != "" && c.key != ""

/-- The order in which the helpers that store a pair take its components. -/
inductive ArgOrder
  | uuidFirst
  | keyFirst
  deriving DecidableEq, Repr

/-- What a helper stores when it is called with these two arguments. -/
def ArgOrder.stored : ArgOrder → String → String → Credentials
  | .uuidFirst, first, second => ⟨first, second⟩
  | .keyFirst, first, second => ⟨second, first⟩

/-- The two places. -/
inductive Place
  | nvs
  | sd
  deriving DecidableEq, Repr

structure Iot where
  nvs : Credentials
  sd : Credentials
  /-- `m_uuid` and `m_authkey` -/
  current : Credentials
  /-- `Prop::color`, if it was set -/
  color : Option Int
  /-- the places written to, the last one first -/
  writes : List Place
  deriving DecidableEq, Repr

section

variable (order : ArgOrder)

def Iot.sdStoreCredentials (d : Iot) (first second : String) : Iot :=
  { d with sd := order.stored first second, writes := .sd :: d.writes }

def Iot.nvsStoreCredentials (d : Iot) (first second : String) : Iot :=
  { d with nvs := order.stored first second, writes := .nvs :: d.writes }

/-- The body of a successful answer to `/ivy/factory-register`. -/
structure Registration where
  uuid : String
  key : String
  color : Int
  deriving DecidableEq, Repr

/-- `IOT::register_in_cloud`; the answer is `none` if the request fails, the server
    refuses or the body cannot be read. -/
def Iot.registerInCloud (d : Iot) : Option Registration → Bool × Iot
  | none => (false, d)
  | some r =>
    -- the arguments are in the other order than in `get_credentials`
    let d := d.sdStoreCredentials order r.key r.uuid
    (true, { d with color := some r.color })

/-- `IOT::get_uid_authkey`: up to three attempts to register, with these answers. -/
def Iot.getUidAuthkey (d : Iot) (answers : List (Option Registration)) : Iot :=
  if d.current.uuid = "" ∨ d.current.key = "" then attempt d (answers.take 3) else d
where
  attempt (d : Iot) : List (Option Registration) → Iot
    | [] => d
    | answer :: answers =>
      match d.registerInCloud order answer with
      -- the first success ends the loop
      | (true, d) => d
      | (false, d) => attempt d answers

/-- `IOT::get_credentials` -/
def Iot.getCredentials (d : Iot) : Bool × Iot :=
  let nvsUuid := d.nvs.uuid
  let nvsAuthkey := d.nvs.key
  let sdUuid := d.sd.uuid
  let sdAuthkey := d.sd.key
  let inNvs := hasCredentials d.nvs
  let inSd := hasCredentials d.sd
  if !inNvs && !inSd then (false, d)
  else if inNvs && inSd then
    -- if the places differ, the NVS is right
    let d := { d with current := ⟨nvsUuid, nvsAuthkey⟩ }
    if nvsUuid ≠ sdUuid ∨ nvsAuthkey ≠ sdAuthkey then
      (true, d.sdStoreCredentials order nvsUuid nvsAuthkey)
    else (true, d)
  else
    let d :=
      if inNvs then
        { d with current := ⟨nvsUuid, nvsAuthkey⟩ }.sdStoreCredentials order nvsUuid nvsAuthkey
      else d
    let d :=
      if inSd then
        { d with current := ⟨sdUuid, sdAuthkey⟩ }.nvsStoreCredentials order sdUuid sdAuthkey
      else d
    (true, d)

end

end Ivy.Native
