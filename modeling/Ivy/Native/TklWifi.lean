import Ivy.Native.Tkl
import Mathlib.Data.List.Basic
import Mathlib.Algebra.Group.Nat.Defs

/-!
# The Wi-Fi adapter

`tkl_wifi` sits between the Wi-Fi driver of ESP-IDF and the SDK. Three groups of its
variables have nothing to do with each other and are modelled one by one: the state of the
station, written by `tkl_wifi_event_handler`; the work mode; and promiscuous mode.
-/

namespace Ivy.Native

/-- `WF_IF_E` -/
inductive WfIf
  | station
  | ap
  deriving DecidableEq, Repr

/-! ## Addresses -/

/-- A text in a `char[16]`, with its end marked by a null character. -/
structure AddrText where
  chars : List Char
  fits : chars.length < 16
  deriving DecidableEq, Repr

def AddrText.empty : AddrText := ⟨[], by decide⟩

/-- `NW_IP_S` -/
structure NwIp where
  ip : AddrText
  mask : AddrText
  gw : AddrText
  deriving DecidableEq, Repr

/-- `TKL_WIFI_STA_IP_ADDRS_INIT` -/
def NwIp.zero : NwIp := ⟨.empty, .empty, .empty⟩

/-- `esp_netif_ip_info_t`; the addresses are in network order, as they lie in memory. -/
structure IpInfo where
  ip : UInt32
  netmask : UInt32
  gw : UInt32
  deriving DecidableEq, Repr

/-- The text of an address: its bytes, the lowest first, in decimal. -/
def dotted (addr : UInt32) : List Char :=
  let byte (i : Nat) := Nat.toDigits 10 (addr.toNat / 256 ^ i % 256)
  byte 0 ++ '.' :: (byte 1 ++ '.' :: (byte 2 ++ '.' :: byte 3))

/-- `esp_ip4addr_ntoa` into a buffer of 16 characters; `none` is the null pointer, for a
    text that does not fit. -/
def espIp4addrNtoa (addr : UInt32) : Option AddrText :=
  if h : (dotted addr).length < 16 then some ⟨dotted addr, h⟩ else none

/-! ## The station -/

/-- `WF_EVENT_E` -/
inductive WfEvent
  | connected
  | connectFailed
  | disconnected
  deriving DecidableEq, Repr

/-- `WF_STATION_STAT_E` -/
inductive StationStat
  | idle
  | connecting
  | passwdWrong
  | noApFound
  | connFail
  | connSuccess
  | gotIp
  | dhcpFail
  deriving DecidableEq, Repr

/-- `disconnected->reason` -/
inductive DisconnectReason
  | noApFound
  | handshakeTimeout
  | other (code : UInt8)
  deriving DecidableEq, Repr

/-- The events of ESP-IDF, with the data the handler reads. -/
inductive EspEvent
  /-- `connect` is the outcome of `esp_wifi_connect` -/
  | staStart (connect : Bool)
  | staConnected
  | staDisconnected (reason : DisconnectReason)
  /-- `ssidNum` is what `esp_wifi_scan_get_ap_num` leaves, 0 if it fails -/
  | scanDone (ssidNum : UInt16)
  | staAuthmodeChange
  | staBssRssiLow
  | actionTxStatus
  | rocDone
  | staBeaconTimeout
  | staGotIp (info : IpInfo)
  | apStaConnected
  | apStaDisconnected
  /-- an event without a branch of its own, such as `WIFI_EVENT_STA_STOP` -/
  | other (id : Int)
  deriving DecidableEq, Repr

/-- The variables of the station. -/
structure WifiStation where
  /-- `wifi_sta_ip_addrs` -/
  ipAddrs : NwIp
  /-- `wifi_sta_conn_status` -/
  connStatus : StationStat
  /-- `tkl_event_cb` is not null -/
  eventCb : Bool
  /-- `s_wifi_sta_conne_evt_state`; `none` is 0xFF -/
  evtState : Option WfEvent
  /-- the events passed to the callback -/
  delivered : List WfEvent
  deriving DecidableEq, Repr

/-- The variables after `tkl_wifi_init`; `cb` is whether its callback is not null. -/
def WifiStation.init (cb : Bool) : WifiStation where
  ipAddrs := .zero
  connStatus := .idle
  eventCb := cb
  evtState := none
  delivered := []

namespace WifiStation

variable (w : WifiStation)

/-- `if (tkl_event_cb) tkl_event_cb(e, NULL)` -/
def notify (e : WfEvent) : WifiStation :=
  if w.eventCb then { w with delivered := w.delivered ++ [e] } else w

/-- The branch `WIFI_EVENT_STA_DISCONNECTED`. -/
def onDisconnected (reason : DisconnectReason) : WifiStation :=
  let w :=
    match reason with
    | .noApFound => { w with connStatus := .noApFound }
    | .handshakeTimeout => { w with connStatus := .passwdWrong }
    | .other _ => { w with connStatus := .connFail }
  let w := { w with ipAddrs := .zero }
  -- a loss is told as such only behind a connection
  if w.evtState = some .connected then
    let w := w.notify .disconnected
    { w with evtState := some .disconnected }
  else
    let w := w.notify .connectFailed
    { w with evtState := some .connectFailed }

/-- The branch `WIFI_EVENT_SCAN_DONE`. -/
def onScanDone (ssidNum : UInt16) : WifiStation :=
  if ssidNum = 0 then
    let w := { w with connStatus := .noApFound, ipAddrs := .zero }
    -- the event state is not written here
    if w.eventCb ∧ w.evtState ≠ some .connectFailed then w.notify .connectFailed else w
  else w

/-- The branches `WIFI_EVENT_STA_AUTHMODE_CHANGE` and `WIFI_EVENT_STA_BEACON_TIMEOUT`. -/
def onLinkLost : WifiStation :=
  -- without a callback the status stays as it was
  if w.eventCb ∧ w.evtState ≠ some .disconnected then
    let w := w.notify .disconnected
    { w with evtState := some .disconnected, connStatus := .connFail, ipAddrs := .zero }
  else w

/-- The branch `IP_EVENT_STA_GOT_IP`. A text that does not fit would leave a part of it in
    the buffer; here the buffer then keeps what it had. -/
def onGotIp (info : IpInfo) : WifiStation :=
  let ip := espIp4addrNtoa info.ip
  let mask := espIp4addrNtoa info.netmask
  let gw := espIp4addrNtoa info.gw
  let w := { w with ipAddrs := ⟨ip.getD w.ipAddrs.ip, mask.getD w.ipAddrs.mask,
    gw.getD w.ipAddrs.gw⟩ }
  -- the status is written only if there is a callback
  if ip.isSome ∧ mask.isSome ∧ gw.isSome ∧ w.eventCb then
    let w := { w with connStatus := .gotIp }
    let w := w.notify .connected
    { w with evtState := some .connected }
  else w

/-- `tkl_wifi_event_handler` -/
def eventHandler : EspEvent → WifiStation
  | .staStart connect => if connect then { w with connStatus := .connecting } else w
  | .staConnected => { w with connStatus := .connSuccess }
  | .staDisconnected reason => w.onDisconnected reason
  | .scanDone ssidNum => w.onScanDone ssidNum
  | .staAuthmodeChange => w.onLinkLost
  | .staBeaconTimeout => w.onLinkLost
  | .staGotIp info => w.onGotIp info
  | .staBssRssiLow | .actionTxStatus | .rocDone | .apStaConnected | .apStaDisconnected
  | .other _ => w

/-- `tkl_wifi_get_ip`; `apInfo` is what `esp_netif_get_ip_info` gives for the interface of
    the access point, if it is there. The texts are copied with their end. -/
def getIp (wf : WfIf) (apInfo : Option IpInfo) (ip : NwIp) : OperateRet × NwIp :=
  match wf, apInfo with
  | .station, _ =>
    if w.connStatus ≠ .gotIp then (.comError, ip)
    else (.ok, ⟨w.ipAddrs.ip, w.ipAddrs.mask, w.ipAddrs.gw⟩)
  | .ap, some info =>
    (.ok, ⟨(espIp4addrNtoa info.ip).getD ip.ip, (espIp4addrNtoa info.netmask).getD ip.mask,
      (espIp4addrNtoa info.gw).getD ip.gw⟩)
  | .ap, none => (.notSupported, ip)

end WifiStation

/-! ## The work mode -/

/-- `WF_WK_MD_E` -/
inductive WorkMode
  | powerdown
  | sniffer
  | station
  | softap
  | stationap
  | unknown
  deriving DecidableEq, Repr

/-- `wifi_mode_t` -/
inductive EspMode
  | null
  | sta
  | ap
  | apsta
  deriving DecidableEq, Repr

/-- The work mode and the mode of the radio. -/
structure WifiMode where
  /-- `g_wifi_work_mode` -/
  workMode : WorkMode
  /-- the mode last set with `esp_wifi_set_mode` -/
  radio : Option EspMode
  deriving DecidableEq, Repr

def WifiMode.init : WifiMode := ⟨.unknown, none⟩

/-- The `switch` of `tkl_wifi_set_work_mode`; `none` is its default. -/
def WorkMode.esp : WorkMode → Option EspMode
  | powerdown => some .null
  | sniffer => some .apsta
  | station => some .sta
  | softap => some .ap
  | stationap => some .apsta
  | unknown => none

namespace WifiMode

variable (m : WifiMode)

/-- `esp_wifi_set_mode` with the outcome `ok`. -/
def espWifiSetMode (mode : EspMode) (ok : Bool) : WifiMode :=
  if ok then { m with radio := some mode } else m

/-- `tkl_wifi_set_work_mode`; `none` means that its assertion has failed. -/
def setWorkMode (mode : WorkMode) (setMode : Bool) : Option (OperateRet × WifiMode) :=
  if mode = .unknown then none
  -- the radio is not asked
  else if mode = m.workMode then some (.ok, m)
  else
    match mode.esp with
    | none => some (.comError, m)
    | some espMode =>
      -- the sniffer needs no call
      let (set, m) :=
        if mode = .sniffer then (true, m) else (setMode, m.espWifiSetMode espMode setMode)
      if !set then some (.comError, m) else some (.ok, { m with workMode := mode })

/-- `tkl_wifi_get_work_mode`; `getMode` is the outcome of `esp_wifi_get_mode`. The mode is
    written only on success. -/
def getWorkMode (getMode : Bool) : OperateRet × Option WorkMode :=
  if !getMode then (.comError, none) else (.ok, some m.workMode)

/-- `tkl_wifi_station_connect`, with the outcomes of the calls it checks. -/
def stationConnect (handlers setMode setConfig start : Bool) : OperateRet × WifiMode :=
  if !handlers then (.comError, m)
  else
    -- `g_wifi_work_mode` is not written
    let m := m.espWifiSetMode .sta setMode
    if !setMode then (.comError, m)
    else if !setConfig then (.comError, m)
    else if !start then (.comError, m)
    else (.ok, m)

/-- `tkl_wifi_station_disconnect` -/
def stationDisconnect : OperateRet × WifiMode := (.ok, m)

/-- `tkl_wifi_start_ap`, with the outcomes of the calls it checks. -/
def startAp (handlers setMode setConfig start setIpInfo : Bool) : OperateRet × WifiMode :=
  if !handlers then (.comError, m)
  else
    let m := m.espWifiSetMode .ap setMode
    if !setMode then (.comError, m)
    else if !setConfig then (.comError, m)
    else if !start then (.comError, m)
    else if !setIpInfo then (.comError, m)
    else (.ok, m)

/-- `tkl_wifi_stop_ap` -/
def stopAp : OperateRet × WifiMode := (.ok, m)

/-- `tkl_wifi_set_mac`; `stored` is whether the three calls that store the address in the
    flash succeed. -/
def setMac (wf : WfIf) (stored setMode baseMac setMac : Bool) : OperateRet × WifiMode :=
  if !stored then (.comError, m)
  else
    let m := m.espWifiSetMode (if wf = .ap then .ap else .sta) setMode
    if !setMode then (.comError, m)
    else if !baseMac then (.comError, m)
    else if !setMac then (.comError, m)
    else (.ok, m)

end WifiMode

/-! ## Promiscuous mode -/

/-- `wifi_promiscuous_pkt_type_t` -/
inductive PktType
  | mgmt
  | ctrl
  | data
  | misc
  deriving DecidableEq, Repr

/-- `wifi_promiscuous_pkt_t` with its type. -/
structure Packet where
  type : PktType
  payload : List UInt8
  sigLen : UInt16
  rssi : Int
  deriving DecidableEq, Repr

/-- The two callbacks, of the types `κ` and `μ`, and the mode of the radio. -/
structure WifiSniffer (κ μ : Type) where
  /-- `tuya_sniffer_cb` -/
  snifferCb : Option κ
  /-- `mgnt_recv_cb` -/
  mgntRecvCb : Option μ
  promiscuous : Bool
  /-- the types that the filter lets through -/
  filter : List PktType
  /-- the callback for packets is `sniffer_local_cb`, not null -/
  localCb : Bool
  deriving DecidableEq, Repr

namespace WifiSniffer

variable {κ μ : Type}

def init : WifiSniffer κ μ := ⟨none, none, false, [], false⟩

variable (s : WifiSniffer κ μ)

/-- `wifi_sniffer_start(sniffer_local_cb, &filter)` with the filter of both callers. -/
def start : WifiSniffer κ μ :=
  { s with filter := [.data, .mgmt], localCb := true, promiscuous := true }

/-- `wifi_sniffer_stop` -/
def stop : WifiSniffer κ μ := { s with promiscuous := false, localCb := false }

/-- `tkl_wifi_set_sniffer` -/
def setSniffer (en : Bool) (cb : Option κ) : OperateRet × WifiSniffer κ μ :=
  if en ∧ cb.isNone then (.invalidParm, s)
  else if en then (.ok, { s with snifferCb := cb }.start)
  else (.ok, { s.stop with snifferCb := none })

/-- `tkl_wifi_register_recv_mgnt_callback` -/
def registerRecvMgntCallback (enable : Bool) (recvCb : Option μ) :
    OperateRet × WifiSniffer κ μ :=
  if enable then (.ok, { s with mgntRecvCb := recvCb }.start)
  else
    -- stopped if the sniffer is in use, and left running if it is not
    let s := if s.snifferCb.isSome then s.stop else s
    (.ok, { s with mgntRecvCb := none })

/-- `sniffer_local_cb`: the callback it calls, with the data, length and strength. -/
def snifferLocalCb (pkt : Packet) : Option (κ × List UInt8 × UInt16 × Int) :=
  s.snifferCb.map fun cb => (cb, pkt.payload, pkt.sigLen, pkt.rssi)

/-- A packet is on the air: the radio hands it over in promiscuous mode, if the filter lets
    it through. -/
def receive (pkt : Packet) : Option (κ × List UInt8 × UInt16 × Int) :=
  if s.promiscuous ∧ pkt.type ∈ s.filter ∧ s.localCb then s.snifferLocalCb pkt else none

end WifiSniffer

end Ivy.Native
