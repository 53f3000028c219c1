import Ivy.ForStd.CString
import Ivy.Native.Tkl
import Mathlib.Algebra.Group.Nat.Defs

/-!
# The scan for access points

`tkl_wifi_scan_ap` turns the records of the Wi-Fi driver into an array of `AP_IF_S`, one item
of memory for every record. The results of the calls it depends on are parameters.
-/

namespace Ivy.Native

/-- `wifi_ap_record_t`, as far as it is read. `authmode` is the value of the enumeration. -/
structure WifiApRecord where
  bssid : Vector UInt8 6
  ssid : CString
  primary : UInt8
  rssi : Int8
  authmode : UInt8
  length_ssid : ssid.mem.length = 33
  deriving DecidableEq, Repr

/-- `AP_IF_S`, without the fields that stay zero. -/
structure ApIf where
  channel : UInt8
  rssi : Int8
  bssid : Vector UInt8 6
  ssid : List UInt8
  sLen : UInt8
  security : UInt8
  deriving DecidableEq, Repr

/-- An item after `memset`. -/
def ApIf.zero : ApIf where
  channel := 0
  rssi := 0
  bssid := .replicate 6 0
  ssid := .replicate 33 0
  sLen := 0
  security := 0

/-- What the driver has found, counted in a `uint16_t`, and which calls succeed. -/
structure EspScan where
  scanStart : Bool
  getApNum : Bool
  mallocResults : Bool
  getApRecords : Bool
  mallocItems : Bool
  records : List WifiApRecord
  fits : records.length < 2 ^ 16
  deriving DecidableEq, Repr

/-- The condition of the `continue`. -/
def skipped (ssid : Option CString) (r : WifiApRecord) : Bool :=
  match ssid with
  | none => false
  | some s => s.strncmp r.ssid s.strlen == 0

/-- The assignments to one item. -/
def copyRecord (r : WifiApRecord) (item : ApIf) : ApIf :=
  let sLen := r.ssid.strlen
  { channel := r.primary
    rssi := r.rssi
    security := r.authmode
    sLen := sLen.toUInt8
    -- `strncpy` without the terminator, over zeros
    ssid := r.ssid.mem.take sLen ++ item.ssid.drop sLen
    bssid := r.bssid }

/-- The loop, from the record `i` on; returns `total` and `ap_items`. -/
def scanLoop (ssid : Option CString) :
    List WifiApRecord → Nat → Nat → List ApIf → Nat × List ApIf
  | [], _, total, apItems => (total, apItems)
  | r :: records, i, total, apItems =>
    -- the item of a record that is left out stays zero
    if skipped ssid r then scanLoop ssid records (i + 1) total apItems
    else scanLoop ssid records (i + 1) (total + 1) (apItems.modify i (copyRecord r))

/-- What `_tkl_wifi_all_ap_scan` returns: its result, `num` and `ap_ary`. -/
structure ScanResult where
  ret : OperateRet
  num : Nat
  apAry : Option (List ApIf)
  deriving DecidableEq, Repr

def tklWifiAllApScan (ssid : Option CString) (scan : EspScan) : ScanResult :=
  if !scan.scanStart then ⟨.comError, 0, none⟩
  else if !scan.getApNum then ⟨.comError, 0, none⟩
  else if !scan.mallocResults then ⟨.comError, 0, none⟩
  else if !scan.getApRecords then ⟨.comError, 0, none⟩
  else if !scan.mallocItems then ⟨.comError, 0, none⟩
  else
    let apItems := List.replicate scan.records.length ApIf.zero
    let (total, apItems) := scanLoop ssid scan.records 0 0 apItems
    ⟨.ok, total, some apItems⟩

def tklWifiScanAp (ssid : Option CString) (scan : EspScan) : ScanResult :=
  tklWifiAllApScan ssid scan

end Ivy.Native
