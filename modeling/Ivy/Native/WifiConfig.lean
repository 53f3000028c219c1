import Ivy.ForStd.CString

/-!
# The Wi-Fi configuration records

What `tkl_wifi_station_connect` and `tkl_wifi_start_ap` put into the `wifi_config_t` that they hand
to the driver. The record lies on the stack and is given by its bytes, so that a copy that is longer
than its field goes on in the next one. A copy that goes on behind the record overwrites the frame
of its function: there is no record then, and nothing is said about what follows.
-/

namespace Ivy.Native

open CString

/-! The layout of `wifi_config_t`. -/

def ssidOffset : Nat := 0
def ssidSize : Nat := 32
def passwordOffset : Nat := 32
def passwordSize : Nat := 64

/-- `sizeof(wifi_config_t)` -/
def wifiConfigSize : Nat := 132

def staScanMethod : Nat := 96
def staListenInterval : Nat := 108
def staThresholdAuthmode : Nat := 120
def staPmfCapable : Nat := 124
def apChannel : Nat := 97
def apAuthmode : Nat := 100
def apSsidHidden : Nat := 104
def apMaxConnection : Nat := 105
def apBeaconInterval : Nat := 106

/-- `wifi_auth_mode_t` -/
inductive WifiAuth
  | open
  | wep
  | wpaPsk
  | wpa2Psk
  | wpaWpa2Psk
  | wpa2Enterprise
  | wpa3Psk
  | wpa2Wpa3Psk
  | wapiPsk
  deriving DecidableEq, Repr

/-- The value of the enumeration. -/
def WifiAuth.toUInt8 : WifiAuth → UInt8
  | .open => 0
  | .wep => 1
  | .wpaPsk => 2
  | .wpa2Psk => 3
  | .wpaWpa2Psk => 4
  | .wpa2Enterprise => 5
  | .wpa3Psk => 6
  | .wpa2Wpa3Psk => 7
  | .wapiPsk => 8

/-- The bytes of an enumeration with small values. -/
def enumBytes (value : UInt8) : List UInt8 := [value, 0, 0, 0]

/-- A call of `strncpy` with a destination in the record. -/
structure StrncpyCall where
  dst : Nat
  src : List UInt8
  n : Nat

def StrncpyCall.run (m : Nat → UInt8) (c : StrncpyCall) : Option (Nat → UInt8) :=
  if c.dst + c.n ≤ wifiConfigSize then some (strncpy m c.dst c.src c.n) else none

/-- `memset(&wifi_cfg, 0, sizeof(wifi_cfg))` -/
def clearConfig (stack : Nat → UInt8) : Nat → UInt8 :=
  Mem.store stack 0 (List.replicate wifiConfigSize 0)

/-! ## The station -/

/-- The copies of `tkl_wifi_station_connect`. -/
def stationCopies (ssid passwd : CString) : List StrncpyCall :=
  ⟨ssidOffset, ssid.mem, ssid.strlen⟩ ::
    -- an empty password is not copied
    if passwd.mem.headD 0 ≠ 0 then [⟨passwordOffset, passwd.mem, passwd.strlen⟩] else []

/-- The record that `tkl_wifi_station_connect` builds. -/
def stationConfig (stack : Nat → UInt8) (ssid passwd : CString) : Option (Nat → UInt8) := do
  let m := clearConfig stack
  -- WIFI_ALL_CHANNEL_SCAN
  let m := Mem.store m staScanMethod (enumBytes 1)
  let m ← (stationCopies ssid passwd).foldlM StrncpyCall.run m
  let m := Mem.store m staListenInterval [10, 0]
  let m := Mem.store m staPmfCapable [1]
  return Mem.store m staThresholdAuthmode (enumBytes WifiAuth.wpa2Psk.toUInt8)

/-! ## The access point -/

/-- `WF_AP_CFG_IF_S`, by the bytes from its address on; those behind it are whatever lies there. -/
structure ApCfg where
  mem : Nat → UInt8

namespace ApCfg

variable (cfg : ApCfg)

/-- `cfg->ssid` has 33 bytes. -/
def ssid : Nat := 0

def sLen : UInt8 := cfg.mem 33

/-- `cfg->passwd` has 65 bytes. -/
def passwd : Nat := 34

def pLen : UInt8 := cfg.mem 99

def chan : UInt8 := cfg.mem 100

def md : List UInt8 := Mem.load cfg.mem 104 4

def ssidHidden : UInt8 := cfg.mem 108

def maxConn : UInt8 := cfg.mem 109

def msInterval : List UInt8 := Mem.load cfg.mem 110 2

end ApCfg

/-- The `switch` over `WF_AP_AUTH_MODE_E`. -/
def waamAuth (md : List UInt8) : WifiAuth :=
  match md with
  | [0, 0, 0, 0] => .open
  | [1, 0, 0, 0] => .wep
  | [2, 0, 0, 0] => .wpaPsk
  | [3, 0, 0, 0] => .wpa2Psk
  | [4, 0, 0, 0] => .wpaWpa2Psk
  | [5, 0, 0, 0] => .wpa2Wpa3Psk
  | _ => .open

/-- The copies of `tkl_wifi_start_ap`. -/
def apCopies (cfg : ApCfg) : List StrncpyCall :=
  ⟨ssidOffset, Mem.load cfg.mem ApCfg.ssid cfg.sLen.toNat, cfg.sLen.toNat⟩ ::
    -- only the length of the password is tested
    if cfg.pLen ≠ 0 ∧ cfg.pLen ≤ 64 then
      [⟨passwordOffset, Mem.load cfg.mem ApCfg.passwd cfg.pLen.toNat, cfg.pLen.toNat⟩]
    else []

/-- The `auth_mode` that `tkl_wifi_start_ap` chooses. -/
def apAuth (cfg : ApCfg) : WifiAuth :=
  if cfg.pLen ≠ 0 ∧ cfg.mem ApCfg.passwd ≠ 0 then waamAuth cfg.md else .open

/-- The record that `tkl_wifi_start_ap` builds. -/
def apConfig (stack : Nat → UInt8) (cfg : ApCfg) : Option (Nat → UInt8) := do
  let m := clearConfig stack
  let m ← (apCopies cfg).foldlM StrncpyCall.run m
  let m := Mem.store m apChannel [cfg.chan]
  let m := Mem.store m apBeaconInterval cfg.msInterval
  let m := Mem.store m apMaxConnection [cfg.maxConn]
  let m := Mem.store m apSsidHidden [cfg.ssidHidden]
  return Mem.store m apAuthmode (enumBytes (apAuth cfg).toUInt8)

end Ivy.Native
