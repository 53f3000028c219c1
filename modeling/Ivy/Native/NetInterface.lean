import Mathlib.Data.List.Basic

/-!
# Network events and provisioning

`NetInterface` handles the events of the Wi-Fi driver and the status changes of the cloud
connection, and keeps the status of provisioning that the screen shows. The Bluetooth
link that receives the Wi-Fi credentials writes the same status when it is stopped.
Calls into other parts of the device are logged.
-/

namespace Ivy.Native

/-- `prov_status_t` -/
inductive ProvStatus
  | noNeed
  | init
  | bleConnected
  | wifiConnected
  | activated
  | errStart
  | wifiConnFail
  | pwdError
  | apNotFound
  | rssiLow
  deriving DecidableEq, Repr

/-- The values of the enumeration. -/
def ProvStatus.toNat : ProvStatus → Nat
  | noNeed => 0
  | init => 1
  | bleConnected => 2
  | wifiConnected => 3
  | activated => 4
  | errStart => 5
  | wifiConnFail => 6
  | pwdError => 7
  | apNotFound => 8
  | rssiLow => 9

/-- The condition of `UIProvTip::reach_status`. -/
def ProvStatus.reaches (current status : ProvStatus) : Bool :=
  status.toNat ≤ current.toNat && current.toNat < errStart.toNat

/-- `WIFI_CONNECT_MAXNUM_RETRY` -/
def wifiConnectMaxnumRetry : Nat := 6

/-- `WIFI_AP_FIND_MAXNUM_RETRY` -/
def wifiApFindMaxnumRetry : Nat := 16

/-- The station status told to the SDK. -/
inductive StaStatus
  | connFail
  | connSuccess
  | gotIp
  deriving DecidableEq, Repr

/-- The texts of the tips. -/
inductive TipText
  | connectFail
  | reasonApNotFound
  | failReset
  | signalWeek
  | reasonWeek
  deriving DecidableEq, Repr

/-- The calls that leave this part of the device. -/
inductive NetEffect
  | setStaStatus (s : StaStatus)
  | espWifiConnect
  | uiTextTip (main sub : TipText)
  | setIpInfo (ip : UInt32)
  | reportIp
  /-- `Boot::got_ip_cb` -/
  | gotIpCb
  | calibrateAll (n : Nat)
  /-- `Sys::set_condition(Sys::TIMESTAMP_ACQUIRED)` -/
  | timestampAcquired
  /-- `Boot::activated_cb` -/
  | activatedCb
  /-- `IOT::connect_cb` -/
  | connectCb
  | registerButtonTap
  | bleNetcfgInit (ctx : Nat)
  | bleNetcfgStart (ctx : Nat)
  | bleNetcfgStop (ctx : Option Nat)
  | bleFree (ctx : Option Nat)
  deriving DecidableEq, Repr

structure NetInterface where
  inProvision : Bool
  provStatus : ProvStatus
  apNotFound : Bool
  /-- `s_wifi_connect_retry_num` -/
  wifiConnectRetryNum : Nat
  /-- `s_ap_find_retry_num` -/
  apFindRetryNum : Nat
  /-- `IOT::m_connected` -/
  connected : Bool
  /-- `bt_stop_flag` -/
  btStopFlag : Bool
  /-- `ble_netcfg_ctx`: the contexts allocated are numbered -/
  bleNetcfgCtx : Option Nat
  /-- the number of contexts allocated so far -/
  nextCtx : Nat
  log : List NetEffect
  deriving DecidableEq, Repr

/-- The device after start-up. -/
def NetInterface.init : NetInterface where
  inProvision := false
  provStatus := .noNeed
  apNotFound := false
  wifiConnectRetryNum := 0
  apFindRetryNum := 0
  connected := false
  btStopFlag := false
  bleNetcfgCtx := none
  nextCtx := 0
  log := []

namespace NetInterface

def emit (n : NetInterface) (e : NetEffect) : NetInterface :=
  { n with log := n.log ++ [e] }

def setProvStatus (n : NetInterface) (status : ProvStatus) : NetInterface :=
  { n with provStatus := status }

def setInProvision (n : NetInterface) (inside : Bool) : NetInterface :=
  let n := { n with inProvision := inside }
  -- leaving the provisioning keeps its status
  if inside then n.setProvStatus .init else n

/-! ## Wi-Fi events -/

/-- `info.disconnected.reason` -/
inductive Reason
  /-- `WIFI_REASON_4WAY_HANDSHAKE_TIMEOUT` -/
  | fourWayHandshakeTimeout
  | handshakeTimeout
  | noApFound
  | other (code : UInt8)
  deriving DecidableEq, Repr

/-- The events of the driver, with the data the handler reads. -/
inductive Event
  | scanDone
  | staStart
  | staConnected
  /-- `awake` is the condition `Sys::WAKE` when the event is handled -/
  | staDisconnected (awake : Bool) (reason : Reason)
  | staGotIp (ip : UInt32)
  | staLostIp
  | staBssRssiLow
  | other
  deriving DecidableEq, Repr

/-- The case `WIFI_REASON_NO_AP_FOUND`. -/
def disconnectedNoAp (n : NetInterface) : NetInterface :=
  if n.apFindRetryNum < wifiApFindMaxnumRetry then
    let n := n.emit .espWifiConnect
    { n with apFindRetryNum := n.apFindRetryNum + 1 }
  -- the last attempt tells the user
  else if n.apFindRetryNum = wifiApFindMaxnumRetry then
    let n :=
      if n.inProvision then n.setProvStatus .apNotFound
      else n.emit (.uiTextTip .connectFail .reasonApNotFound)
    let n := n.emit .espWifiConnect
    { n with apFindRetryNum := n.apFindRetryNum + 1 }
  -- no more attempts from here on
  else { n with apNotFound := true }

/-- The default case of the reasons. -/
def disconnectedOther (n : NetInterface) : NetInterface :=
  if n.wifiConnectRetryNum < wifiConnectMaxnumRetry then
    let n := n.emit .espWifiConnect
    { n with wifiConnectRetryNum := n.wifiConnectRetryNum + 1 }
  -- again the last attempt tells the user
  else if n.wifiConnectRetryNum = wifiConnectMaxnumRetry then
    let n :=
      if n.inProvision then n.setProvStatus .wifiConnFail
      else n.emit (.uiTextTip .connectFail .failReset)
    let n := n.emit .espWifiConnect
    { n with wifiConnectRetryNum := n.wifiConnectRetryNum + 1 }
  else n

/-- `NetInterface::net_event_handler` -/
def netEventHandler (n : NetInterface) : Event → NetInterface
  | .scanDone | .staStart | .staLostIp | .other => n
  | .staConnected =>
    let n := n.emit (.setStaStatus .connSuccess)
    { n with wifiConnectRetryNum := 0, apFindRetryNum := 0 }
  | .staDisconnected awake reason =>
    -- a disconnect in sleep is not looked at, and `m_connected` stays
    if !awake then n
    else
      let n := n.emit (.setStaStatus .connFail)
      let n := { n with connected := false }
      match reason with
      | .fourWayHandshakeTimeout | .handshakeTimeout =>
        if n.inProvision then n.setProvStatus .pwdError else n
      | .noApFound => n.disconnectedNoAp
      | .other _ => n.disconnectedOther
  | .staGotIp ip =>
    let n := n.emit (.setIpInfo ip)
    let n := n.emit (.setStaStatus .gotIp)
    let n := n.emit .reportIp
    let n := n.emit .gotIpCb
    let n := n.emit (.calibrateAll 1000)
    if n.inProvision then n.setProvStatus .wifiConnected else n
  | .staBssRssiLow =>
    if n.inProvision then n.setProvStatus .rssiLow
    else n.emit (.uiTextTip .signalWeek .reasonWeek)

/-! ## Status of the cloud connection -/

/-- `GW_WIFI_NW_STAT_E` -/
inductive NwStat
  | staConn
  | staDisc
  | cloudConn
  | apCloudConn
  | other
  deriving DecidableEq, Repr

/-- `NetInterface::net_status_change_handler` -/
def netStatusChangeHandler (n : NetInterface) : NwStat → NetInterface
  | .staConn | .staDisc | .other => n
  | .cloudConn | .apCloudConn =>
    -- before the provisioning is left
    let n := if n.inProvision then n.setProvStatus .activated else n
    let n := n.emit .timestampAcquired
    let n := n.emit .activatedCb
    let n := { n with connected := true }
    let n := n.emit .connectCb
    let n := n.setInProvision false
    n.emit .registerButtonTap

/-! ## The Bluetooth link -/

/-- `tuya_iot_bt_init`; `controller` is the outcome of `esp_bt_controller_init`. Returns
    whether it has succeeded. -/
def tuyaIotBtInit (n : NetInterface) (controller : Bool) : Bool × NetInterface :=
  if !controller then (false, n)
  else
    let ctx := n.nextCtx
    let n := { n with bleNetcfgCtx := some ctx, nextCtx := n.nextCtx + 1 }
    let n := n.emit (.bleNetcfgInit ctx)
    let n := n.emit (.bleNetcfgStart ctx)
    (true, { n with btStopFlag := false })

/-- `tuya_iot_bt_stop` -/
def tuyaIotBtStop (n : NetInterface) : NetInterface :=
  let n :=
    if !n.btStopFlag then
      let n := n.emit (.bleNetcfgStop n.bleNetcfgCtx)
      let n := { n with btStopFlag := true }
      -- the pointer is not cleared
      n.emit (.bleFree n.bleNetcfgCtx)
    else n
  -- also when nothing was stopped
  n.setProvStatus .bleConnected

end NetInterface

end Ivy.Native
