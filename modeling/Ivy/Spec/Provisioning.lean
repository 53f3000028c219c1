import Ivy.ForStd.Transition
import Ivy.Native.NetInterface

/-!
# The status of provisioning

A provisioning begins with `set_in_provision(true)`. The handlers of the Wi-Fi driver and
of the cloud connection write the status only while it lasts, and the cloud connection
ends it; `tuya_iot_bt_stop` writes `prov_ble_connected` whenever it is called. Its calls
behind the first address or cloud connection are what takes the status back (`Early`).
-/

namespace Ivy.Spec

open Ivy.Native Ivy.Lts

/-! ## Provisionings -/

/-- What can happen to the network of a device. -/
inductive NetCall
  | event (e : NetInterface.Event)
  | status (s : NetInterface.NwStat)
  | btInit (controller : Bool)
  | btStop
  deriving DecidableEq, Repr

def netStep (n : NetInterface) : NetCall → NetInterface
  | .event e => n.netEventHandler e
  | .status s => n.netStatusChangeHandler s
  | .btInit controller => (n.tuyaIotBtInit controller).2
  | .btStop => n.tuyaIotBtStop

/-- The call tells of a connection to the cloud. -/
def NetCall.isCloud : NetCall → Bool
  | .status .cloudConn | .status .apCloudConn => true
  | _ => false

/-- The call tells of an address or of a connection to the cloud. -/
def NetCall.isLink : NetCall → Bool
  | .event (.staGotIp _) => true
  | c => c.isCloud

/-- A device during a provisioning. -/
structure Provisioning where
  net : NetInterface
  /-- the values the status has had since the beginning, the last one first -/
  statuses : List ProvStatus
  /-- a cloud connection was handled during provisioning -/
  connected : Bool
  /-- an address was received or a cloud connection handled -/
  linked : Bool
  deriving DecidableEq, Repr

/-- `set_in_provision(true)` has just been called. -/
def Provisioning.begin (n : NetInterface) : Provisioning :=
  ⟨n.setInProvision true, [.init], false, false⟩

/-- The call `c` has left the network as `net`. -/
def Provisioning.advance (p : Provisioning) (c : NetCall) (net : NetInterface) : Provisioning where
  net := net
  statuses := net.provStatus :: p.statuses
  connected := p.connected || (p.net.inProvision && c.isCloud)
  linked := p.linked || c.isLink

def Provisioning.step (p : Provisioning) (c : NetCall) : Provisioning :=
  p.advance c (netStep p.net c)

/-- The values that are neither an error nor the mark where the errors begin. -/
def ProvStatus.isProgress (s : ProvStatus) : Bool :=
  s.toNat < ProvStatus.errStart.toNat

/-- No value of the list that is not an error is above the bound. -/
def UpTo (bound : ProvStatus) (l : List ProvStatus) : Prop :=
  ∀ s ∈ l, ProvStatus.isProgress s = true → s.toNat ≤ bound.toNat

/-- After the call the status is an error or not below any value it has had before, and
    after a cloud connection it is `prov_activated`, so that the screen can go on. -/
def Forward (p : Provisioning) (c : NetCall) : Prop :=
  (ProvStatus.isProgress (p.step c).net.provStatus = true →
    UpTo (p.step c).net.provStatus p.statuses) ∧
  ((p.step c).connected = true → (p.step c).net.provStatus = .activated ∧
    (p.step c).net.provStatus.reaches .activated = true)

/-- The Bluetooth link is stopped only before an address or a cloud connection. -/
def Early (p : Provisioning) (c : NetCall) : Prop :=
  c = .btStop → p.linked = false

/-! ## What a call writes -/

/-- The effect of a call on the status and on `in_provision`. -/
inductive StatusStep (n : NetInterface) : NetCall → NetInterface → Prop
  | keep (c : NetCall) (n' : NetInterface) (hlink : c.isLink = true → n.inProvision = false)
      (hstop : c ≠ .btStop) (hprov : n'.inProvision = n.inProvision)
      (hstatus : n'.provStatus = n.provStatus) : StatusStep n c n'
  | error (c : NetCall) (n' : NetInterface) (hlink : c.isLink = false) (hstop : c ≠ .btStop)
      (hin : n.inProvision = true) (hprov : n'.inProvision = true)
      (hstatus : ProvStatus.isProgress n'.provStatus = false) : StatusStep n c n'
  | gotIp (ip : UInt32) (n' : NetInterface) (hin : n.inProvision = true)
      (hprov : n'.inProvision = true) (hstatus : n'.provStatus = .wifiConnected) :
      StatusStep n (.event (.staGotIp ip)) n'
  | cloud (c : NetCall) (n' : NetInterface) (hcloud : c.isCloud = true)
      (hin : n.inProvision = true) (hprov : n'.inProvision = false)
      (hstatus : n'.provStatus = .activated) : StatusStep n c n'
  | stop (n' : NetInterface) (hprov : n'.inProvision = n.inProvision)
      (hstatus : n'.provStatus = .bleConnected) : StatusStep n .btStop n'

section

variable (n : NetInterface)

/-- A disconnection writes an error, and that only during provisioning. -/
theorem disconnectedNoAp_status :
    n.disconnectedNoAp.inProvision = n.inProvision ∧
      (n.disconnectedNoAp.provStatus = n.provStatus ∨
        n.inProvision = true ∧ n.disconnectedNoAp.provStatus = .apNotFound) := by
  unfold NetInterface.disconnectedNoAp
  split
  · exact ⟨rfl, .inl rfl⟩
  · split
    · cases hin : n.inProvision with
      | true => exact ⟨hin, .inr ⟨rfl, rfl⟩⟩
      | false => exact ⟨hin, .inl rfl⟩
    · exact ⟨rfl, .inl rfl⟩

/-- A disconnect is an error only while provisioning. -/
theorem disconnectedOther_status :
    n.disconnectedOther.inProvision = n.inProvision ∧
      (n.disconnectedOther.provStatus = n.provStatus ∨
        n.inProvision = true ∧ n.disconnectedOther.provStatus = .wifiConnFail) := by
  unfold NetInterface.disconnectedOther
  split
  · exact ⟨rfl, .inl rfl⟩
  · split
    · cases hin : n.inProvision with
      | true => exact ⟨hin, .inr ⟨rfl, rfl⟩⟩
      | false => exact ⟨hin, .inl rfl⟩
    · exact ⟨rfl, .inl rfl⟩

/-- A network event makes one of the steps. -/
theorem netEventHandler_status (e : NetInterface.Event) :
    StatusStep n (.event e) (n.netEventHandler e) := by
  cases e with
  | scanDone | staStart | staLostIp | other | staConnected =>
    exact .keep _ _ nofun nofun rfl rfl
  | staDisconnected awake reason =>
    cases awake with
    | false => exact .keep _ _ nofun nofun rfl rfl
    | true =>
      cases reason with
      | fourWayHandshakeTimeout | handshakeTimeout =>
        obtain ⟨inProvision⟩ := n
        cases inProvision with
        | true => exact .error _ _ rfl nofun rfl rfl rfl
        | false => exact .keep _ _ nofun nofun rfl rfl
      -- an access point that is missing is an error of its own
      | noApFound =>
        obtain ⟨hprov, hstatus | ⟨hin, hstatus⟩⟩ :=
          disconnectedNoAp_status { n.emit (.setStaStatus .connFail) with connected := false }
        · exact .keep _ _ nofun nofun hprov hstatus
        · exact .error _ _ rfl nofun hin (hprov.trans hin)
            (congrArg ProvStatus.isProgress hstatus)
      | other code =>
        obtain ⟨hprov, hstatus | ⟨hin, hstatus⟩⟩ :=
          disconnectedOther_status { n.emit (.setStaStatus .connFail) with connected := false }
        · exact .keep _ _ nofun nofun hprov hstatus
        · exact .error _ _ rfl nofun hin (hprov.trans hin)
            (congrArg ProvStatus.isProgress hstatus)
  | staGotIp ip =>
    -- with the flag a constant, both sides of the handler's test compute
    obtain ⟨inProvision⟩ := n
    cases inProvision with
    | true => exact .gotIp ip _ rfl rfl rfl
    | false => exact .keep _ _ (fun _ => rfl) nofun rfl rfl
  | staBssRssiLow =>
    obtain ⟨inProvision⟩ := n
    cases inProvision with
    | true => exact .error _ _ rfl nofun rfl rfl rfl
    | false => exact .keep _ _ nofun nofun rfl rfl

/-- A change of the cloud's status makes one of the steps. -/
theorem netStatusChangeHandler_status (s : NetInterface.NwStat) :
    StatusStep n (.status s) (n.netStatusChangeHandler s) := by
  cases s with
  | staConn | staDisc | other => exact .keep _ _ nofun nofun rfl rfl
  | cloudConn | apCloudConn =>
    obtain ⟨inProvision⟩ := n
    cases inProvision with
    | true => exact .cloud _ _ rfl rfl rfl rfl
    | false => exact .keep _ _ (fun _ => rfl) nofun rfl rfl

/-- Every call makes one of the steps. -/
theorem netStep_status (c : NetCall) : StatusStep n c (netStep n c) := by
  cases c with
  | event e => exact netEventHandler_status n e
  | status s => exact netStatusChangeHandler_status n s
  | btInit controller =>
    cases controller with
    | true => exact .keep _ _ nofun nofun rfl rfl
    | false => exact .keep _ _ nofun nofun rfl rfl
  | btStop =>
    -- the status is written whether or not the link was running
    refine .stop _ ?_ rfl
    unfold netStep NetInterface.tuyaIotBtStop
    dsimp only
    split <;> rfl

end

/-! ## The invariant -/

/-- One more status. -/
theorem upTo_cons {bound s : ProvStatus} {l : List ProvStatus} :
    UpTo bound (s :: l) ↔
      (ProvStatus.isProgress s = true → s.toNat ≤ bound.toNat) ∧ UpTo bound l :=
  List.forall_mem_cons

/-- `prov_activated` is the last value before the errors. -/
theorem upTo_activated (l : List ProvStatus) : UpTo .activated l := by
  intro s _ hs
  -- `prov_err_start` is the sixth value
  have hlt : s.toNat < 5 := of_decide_eq_true hs
  show s.toNat ≤ 4
  omega

/-- Where a provisioning stands, by its flags. -/
structure Steady (p : Provisioning) : Prop where
  head : p.net.provStatus ∈ p.statuses
  top : ProvStatus.isProgress p.net.provStatus = true → UpTo p.net.provStatus p.statuses
  during : p.net.inProvision = true → p.connected = false ∧ UpTo .wifiConnected p.statuses
  after : p.net.inProvision = false →
    p.connected = true ∧ p.net.provStatus = .activated ∧ p.linked = true
  unlinked : p.linked = false → UpTo .bleConnected p.statuses
  linked : p.linked = true → ¬ UpTo .bleConnected p.statuses

/-- A provisioning that begins. -/
theorem steady_begin (n : NetInterface) : Steady (.begin n) where
  head := List.mem_singleton_self _
  top _ := List.forall_mem_singleton.mpr fun _ => Nat.le_refl _
  during _ := ⟨rfl, List.forall_mem_singleton.mpr fun _ => by decide⟩
  after := nofun
  unlinked _ := List.forall_mem_singleton.mpr fun _ => by decide
  linked := nofun

/-- A cloud connection is a link. -/
theorem isLink_of_isCloud {c : NetCall} (h : c.isCloud = true) : c.isLink = true := by
  unfold NetCall.isLink
  split
  · rfl
  · exact h

section

variable {p : Provisioning} {c : NetCall}

/-- Before the first address or cloud connection the provisioning lasts. -/
theorem Steady.inProvision (hs : Steady p) (h : p.linked = false) : p.net.inProvision = true := by
  cases hin : p.net.inProvision with
  | true => rfl
  | false =>
    rw [(hs.after hin).2.2] at h
    exact nomatch h

/-- While provisioning goes on the cloud is not connected. -/
theorem Steady.not_connected (hs : Steady p) (hin : p.net.inProvision = true)
    (hcloud : c.isCloud = false) : (p.connected || (p.net.inProvision && c.isCloud)) = false := by
  rw [(hs.during hin).1, hcloud, Bool.and_false]
  rfl

/-- A call that leaves the status alone although it tells of a connection comes after the
    provisioning. -/
theorem not_isCloud (hlink : c.isLink = true → p.net.inProvision = false)
    (hin : p.net.inProvision = true) : c.isCloud = false := by
  cases hc : c.isCloud with
  | false => rfl
  | true =>
    rw [hlink (isLink_of_isCloud hc)] at hin
    exact nomatch hin

/-- Only the stop of the Bluetooth link takes the status back, and that always once an
    address or a cloud connection was there. -/
theorem forward_iff_early (hs : Steady p) : Forward p c ↔ Early p c := by
  have hstep := netStep_status p.net c
  unfold Forward Early Provisioning.step Provisioning.advance
  dsimp only
  -- from here on only the effect on the status counts, not the handler
  generalize netStep p.net c = net at hstep ⊢
  cases hstep with
  | keep _ _ hlink hstop hprov hstatus =>
    rw [hstatus]
    refine iff_of_true ⟨hs.top, fun hconn => ?_⟩ fun h => absurd h hstop
    -- a cloud connection is there only if it has ended the provisioning before
    cases hin : p.net.inProvision with
    | true =>
      rw [hs.not_connected hin (not_isCloud hlink hin)] at hconn
      exact nomatch hconn
    | false =>
      rw [(hs.after hin).2.1]
      exact ⟨rfl, rfl⟩
  -- an error is not compared with the values before it
  | error _ _ hlink hstop hin hprov hstatus =>
    refine iff_of_true ⟨fun hnow => ?_, fun hconn => ?_⟩ fun h => absurd h hstop
    · rw [hstatus] at hnow
      exact nomatch hnow
    · rw [hs.not_connected hin (not_isCloud (by rw [hlink]; nofun) hin)] at hconn
      exact nomatch hconn
  -- the address is the next status
  | gotIp ip _ hin hprov hstatus =>
    rw [hstatus]
    refine iff_of_true ⟨fun _ => (hs.during hin).2, fun hconn => ?_⟩ nofun
    rw [hs.not_connected hin rfl] at hconn
    exact nomatch hconn
  | cloud _ _ hcloud hin hprov hstatus =>
    rw [hstatus]
    refine iff_of_true ⟨fun _ => upTo_activated _, fun _ => ⟨rfl, rfl⟩⟩ ?_
    rintro rfl
    exact nomatch hcloud
  -- `prov_ble_connected` is below an address, and above all that comes before one
  | stop _ hprov hstatus =>
    rw [hstatus]
    constructor
    · intro hfwd _
      cases hlinked : p.linked with
      | false => rfl
      | true =>
        -- some value above `prov_ble_connected` was there already
        exact absurd (hfwd.1 rfl) (hs.linked hlinked)
    · intro hearly
      refine ⟨fun _ => hs.unlinked (hearly rfl), fun hconn => ?_⟩
      rw [hs.not_connected (hs.inProvision (hearly rfl)) rfl] at hconn
      exact nomatch hconn

/-- The new status is not below the earlier ones, so it is not below itself and them. -/
theorem top_advance {net : NetInterface} (hfwd : ProvStatus.isProgress net.provStatus = true →
    UpTo net.provStatus p.statuses) (hnow : ProvStatus.isProgress net.provStatus = true) :
    UpTo net.provStatus (net.provStatus :: p.statuses) :=
  upTo_cons.mpr ⟨fun _ => Nat.le_refl _, hfwd hnow⟩

/-- Once it is there, a value above `prov_ble_connected` stays among the earlier ones. -/
theorem linked_advance {net : NetInterface} (hs : Steady p)
    (hnew : p.linked = false → c.isLink = true →
      ¬ UpTo .bleConnected (net.provStatus :: p.statuses))
    (h : (p.linked || c.isLink) = true) : ¬ UpTo .bleConnected (net.provStatus :: p.statuses) := by
  cases hl : p.linked with
  | true => exact fun hup => hs.linked hl (upTo_cons.mp hup).2
  | false => exact hnew hl (by rwa [hl] at h)

/-- A BLE link that ends early keeps the order. -/
theorem Early.steady (hearly : Early p c) (hs : Steady p) : Steady (p.step c) := by
  have hfwd := ((forward_iff_early hs).mpr hearly).1
  have hstep := netStep_status p.net c
  unfold Provisioning.step Provisioning.advance at hfwd ⊢
  dsimp only at hfwd
  generalize netStep p.net c = net at hstep hfwd ⊢
  cases hstep with
  | keep _ _ hlink hstop hprov hstatus =>
    -- the head of the list is repeated
    have hup : ∀ {bound}, UpTo bound p.statuses → UpTo bound (net.provStatus :: p.statuses) :=
      fun h => upTo_cons.mpr ⟨by rw [hstatus]; exact h _ hs.head, h⟩
    refine ⟨List.mem_cons_self, top_advance hfwd, fun hin => ?_, fun hin => ?_, fun hunl => ?_,
      linked_advance hs fun hl hc => ?_⟩
    · rw [hprov] at hin
      exact ⟨hs.not_connected hin (not_isCloud hlink hin), hup (hs.during hin).2⟩
    · obtain ⟨hconn, hact, hl⟩ := hs.after (hprov ▸ hin)
      exact ⟨by rw [hconn]; rfl, hstatus.trans hact, by rw [hl]; rfl⟩
    · exact hup (hs.unlinked (Bool.or_eq_false_iff.mp hunl).1)
    · exact nomatch (hs.inProvision hl).symm.trans (hlink hc)
  | error _ _ hlink hstop hin hprov hstatus =>
    -- an error is below every bound
    have hup : ∀ {bound}, UpTo bound p.statuses → UpTo bound (net.provStatus :: p.statuses) :=
      fun h => upTo_cons.mpr ⟨fun hnow => (nomatch hstatus.symm.trans hnow), h⟩
    refine ⟨List.mem_cons_self, top_advance hfwd, fun _ => ?_, fun hout => ?_, fun hunl => ?_,
      linked_advance hs fun _ hc => ?_⟩
    · exact ⟨hs.not_connected hin (not_isCloud (by rw [hlink]; nofun) hin),
        hup (hs.during hin).2⟩
    · exact nomatch hprov.symm.trans hout
    · exact hup (hs.unlinked (Bool.or_eq_false_iff.mp hunl).1)
    · exact nomatch hlink.symm.trans hc
  | gotIp ip _ hin hprov hstatus =>
    refine ⟨List.mem_cons_self, top_advance hfwd, fun _ => ?_, fun hout => ?_, fun hunl => ?_,
      linked_advance hs fun _ _ hup => ?_⟩
    · exact ⟨hs.not_connected hin rfl,
        upTo_cons.mpr
          ⟨fun _ => Nat.le_of_eq (congrArg ProvStatus.toNat hstatus), (hs.during hin).2⟩⟩
    · exact nomatch hprov.symm.trans hout
    · exact nomatch (Bool.or_eq_false_iff.mp hunl).2
    · -- the new status is itself above `prov_ble_connected`
      exact absurd ((upTo_cons.mp hup).1 (by rw [hstatus]; rfl)) (by rw [hstatus]; decide)
  | cloud _ _ hcloud hin hprov hstatus =>
    -- the cloud connection ends the provisioning: `after` is what has to be shown
    have hc := isLink_of_isCloud hcloud
    refine ⟨List.mem_cons_self, top_advance hfwd, fun hnow => ?_, fun _ => ?_, fun hunl => ?_,
      linked_advance hs fun _ _ hup => ?_⟩
    · exact nomatch hprov.symm.trans hnow
    · exact ⟨by rw [hin, hcloud, Bool.and_true, Bool.or_true], hstatus,
        by rw [hc, Bool.or_true]⟩
    · exact nomatch hc.symm.trans (Bool.or_eq_false_iff.mp hunl).2
    · exact absurd ((upTo_cons.mp hup).1 (by rw [hstatus]; rfl)) (by rw [hstatus]; decide)
  | stop _ hprov hstatus =>
    -- the stop comes before any link, and so during the provisioning
    have hunlinked := hearly rfl
    have hin := hs.inProvision hunlinked
    refine ⟨List.mem_cons_self, top_advance hfwd, fun _ => ?_, fun hout => ?_, fun _ => ?_,
      linked_advance hs fun _ hc => nomatch hc⟩
    · exact ⟨hs.not_connected hin rfl,
        upTo_cons.mpr ⟨fun _ => by rw [hstatus]; decide, (hs.during hin).2⟩⟩
    · exact nomatch (hprov.trans hin).symm.trans hout
    · exact upTo_cons.mpr
        ⟨fun _ => Nat.le_of_eq (congrArg ProvStatus.toNat hstatus), hs.unlinked hunlinked⟩

/-- For every device and every sequence of calls after `set_in_provision(true)`: the status
    never goes back, and stays `prov_activated` after a cloud connection, exactly if the
    Bluetooth link is stopped only before an address or a cloud connection. -/
theorem provisioning_forward_iff (n : NetInterface) (calls : List NetCall) :
    Always Provisioning.step Forward (.begin n) calls ↔
      Always Provisioning.step Early (.begin n) calls :=
  always_congr (I := Steady) (fun _ _ hs => forward_iff_early hs)
    (fun _ _ hs hearly => hearly.steady hs) (steady_begin n)

/-- The address comes before the Bluetooth link is stopped: the status goes back to
    `prov_ble_connected`. And after the activation it does not stay `prov_activated`, so
    that the screen does not get past its last step. -/
theorem not_provisioning_forward :
    (∃ p, [.event (.staGotIp 1), .btStop].foldl Provisioning.step (.begin .init) = p ∧
      p.statuses = [.bleConnected, .wifiConnected, .init]) ∧
    (∃ p, [.status .cloudConn, .btStop].foldl Provisioning.step (.begin .init) = p ∧
      p.connected = true ∧ p.net.provStatus.reaches .activated = false) ∧
    ¬ Always Provisioning.step Forward (.begin .init) [.event (.staGotIp 1), .btStop] := by
  refine ⟨⟨_, rfl, by decide⟩, ⟨_, rfl, by decide, by decide⟩, fun h => ?_⟩
  exact absurd (h.2.1.1 rfl .wifiConnected (by decide) rfl) (by decide)

end

end Ivy.Spec
