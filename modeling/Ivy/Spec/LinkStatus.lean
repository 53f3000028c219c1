import Ivy.Native.Report
import Ivy.Spec.Provisioning

/-!
# Connected means connected

`IOT::connected()` is set by the handler of the cloud status and cleared by the handler of
the Wi-Fi events. The latter leaves a disconnection alone while the device sleeps, so that
the flag can outlive the link; the reports go by the flag.
-/

namespace Ivy.Spec

open Ivy.Native Ivy.Lts

/-! ## The link beside the flag -/

/-- Whether the link is up after a call: a connection to the cloud brings it up, a
    disconnection takes it down, whether or not the device is awake to handle it. -/
def NetCall.linkAfter (up : Bool) : NetCall → Bool
  | .event (.staDisconnected _ _) => false
  | c => up || c.isCloud

/-- The network with the link as the calls have told of it. -/
structure Link where
  net : NetInterface
  /-- a cloud connection was handled and no disconnection has been received since -/
  up : Bool
  deriving DecidableEq, Repr

def Link.init : Link := ⟨.init, false⟩

def Link.step (l : Link) (c : NetCall) : Link :=
  ⟨netStep l.net c, c.linkAfter l.up⟩

/-- The flag is set only while the link is up, and no report succeeds otherwise. -/
structure Link.Truthful (l : Link) : Prop where
  connected : l.net.connected = true → l.up = true
  reportDp (dp : DataPoint) : (l.net.reportDp dp).ok = true → l.up = true
  reportProp (props : PropView) (prop : ReportKey) :
    (l.net.reportProp props prop).ok = true → l.up = true
  reportAllProp (props : PropView) (sdk : Bool) :
    (l.net.reportAllProp props sdk).ok = true → l.up = true

/-- The call leaves the flag truthful. -/
def Reflects (l : Link) (c : NetCall) : Prop := (l.step c).Truthful

/-- A disconnection that reaches a sleeping device finds the link down already. -/
def HeardAwake (l : Link) (c : NetCall) : Prop :=
  ∀ reason, c = .event (.staDisconnected false reason) → l.up = false

/-! ## The reports go by the flag -/

/-- A report that is made only while the flag is set succeeds only then. -/
theorem connected_of_ok {n : NetInterface} {r : Reported}
    (h : (if n.connected then r else ⟨false, none, false⟩ : Reported).ok = true) :
    n.connected = true := by
  split at h
  · assumption
  · exact nomatch h

/-- The status is truthful if a connection is reported only while there is one. -/
theorem truthful_iff {l : Link} : l.Truthful ↔ (l.net.connected = true → l.up = true) where
  mp h := h.connected
  mpr h :=
    { connected := h
      -- each report tests the flag before anything else
      reportDp := fun _ hok => h (connected_of_ok hok)
      reportProp := fun _ _ hok => h (connected_of_ok hok)
      reportAllProp := fun _ _ hok => h (connected_of_ok hok) }

/-! ## What a call does to the flag -/

section

variable (n : NetInterface)

/-- A missing access point leaves the flag, -/
@[simp] theorem disconnectedNoAp_connected :
    n.disconnectedNoAp.connected = n.connected := by
  unfold NetInterface.disconnectedNoAp
  split
  · rfl
  · split
    · -- the last attempt: only the status or a tip depends on the provisioning
      cases n.inProvision <;> rfl
    · rfl

/-- and so does another reason. -/
@[simp] theorem disconnectedOther_connected :
    n.disconnectedOther.connected = n.connected := by
  unfold NetInterface.disconnectedOther
  split
  · rfl
  · split
    · cases n.inProvision <;> rfl
    · rfl

/-- A disconnection clears the flag while the device is awake and leaves it otherwise. -/
theorem netStep_connected_disconnected (awake : Bool) (reason : NetInterface.Reason) :
    (netStep n (.event (.staDisconnected awake reason))).connected =
      (n.connected && !awake) := by
  cases awake with
  | false => exact (Bool.and_true _).symm
  | true =>
    -- awake: the flag is cleared whatever the reason
    rw [Bool.not_true, Bool.and_false]
    cases reason with
    | fourWayHandshakeTimeout | handshakeTimeout =>
      simp only [netStep, NetInterface.netEventHandler]
      -- the flag is cleared before the reason is looked at
      cases hin : n.inProvision <;>
        simp [NetInterface.emit, NetInterface.setProvStatus, hin]
    | noApFound => exact disconnectedNoAp_connected _
    | other code => exact disconnectedOther_connected _

/-- Every other call sets the flag if it tells of a cloud connection, and leaves it
    otherwise. -/
theorem netStep_connected (c : NetCall)
    (hc : ∀ awake reason, c ≠ .event (.staDisconnected awake reason)) :
    (netStep n c).connected = (n.connected || c.isCloud) := by
  cases c with
  | event e =>
    -- only the cloud's status sets the flag
    have hcloud : (NetCall.event e).isCloud = false := rfl
    rw [hcloud, Bool.or_false]
    cases e with
    | staDisconnected awake reason => exact absurd rfl (hc awake reason)
    | staGotIp ip | staBssRssiLow =>
      obtain ⟨inProvision⟩ := n
      cases inProvision <;> rfl
    | scanDone | staStart | staLostIp | other | staConnected => rfl
  | status s =>
    cases s with
    | staConn | staDisc | other => exact (Bool.or_false _).symm
    | cloudConn | apCloudConn => exact (Bool.or_true _).symm
  | btInit controller => cases controller <;> exact (Bool.or_false _).symm
  | btStop =>
    -- stopping twice only writes the status
    obtain ⟨_, _, _, _, _, _, btStopFlag⟩ := n
    cases btStopFlag <;> exact (Bool.or_false _).symm

end

/-! ## Sequences of calls -/

/-- The flag says what the link is. -/
def Link.Exact (l : Link) : Prop := l.net.connected = l.up

/-- Only a disconnect ends a link. -/
theorem linkAfter_of_ne {up : Bool} {c : NetCall}
    (hc : ∀ awake reason, c ≠ .event (.staDisconnected awake reason)) :
    c.linkAfter up = (up || c.isCloud) := by
  unfold NetCall.linkAfter
  split
  · exact absurd rfl (hc _ _)
  · rfl

/-- The call leaves the flag exact, unless it is a disconnection that the device sleeps
    through while the link is up. -/
theorem Link.Exact.step {l : Link} {c : NetCall} (hl : l.Exact) (hc : HeardAwake l c) :
    (l.step c).Exact := by
  show (netStep l.net c).connected = c.linkAfter l.up
  -- only a disconnection treats the flag and the link in different ways
  by_cases hdisc : ∃ awake reason, c = .event (.staDisconnected awake reason)
  · obtain ⟨awake, reason, rfl⟩ := hdisc
    rw [netStep_connected_disconnected]
    cases awake with
    | true => exact Bool.and_false _
    | false =>
      -- the flag was down before, because the link was
      rw [show l.net.connected = false from hl.trans (hc reason rfl)]
      rfl
  · -- any other call changes both by the same formula
    have hne : ∀ awake reason, c ≠ .event (.staDisconnected awake reason) :=
      fun awake reason h => hdisc ⟨awake, reason, h⟩
    rw [netStep_connected _ c hne, linkAfter_of_ne hne, show l.net.connected = l.up from hl]

/-- The status follows the link exactly if no disconnect is slept through. -/
theorem reflects_iff_heardAwake {l : Link} {c : NetCall} (hl : l.Exact) :
    Reflects l c ↔ HeardAwake l c := by
  constructor
  · rintro href reason rfl
    -- the call changes nothing of the network but takes the link down
    have hflag : l.net.connected ≠ true := fun h => nomatch href.connected h
    rw [← show l.net.connected = l.up from hl]
    exact Bool.eq_false_iff.mpr hflag
  · intro hheard
    apply truthful_iff.mpr
    rw [show (l.step c).net.connected = (l.step c).up from hl.step hheard]
    exact id

/-- For every sequence of Wi-Fi events and status changes after start-up: `connected()` is
    true, and a report succeeds, only while the link is up, exactly if no disconnection
    reaches a sleeping device while the link is up. -/
theorem connected_reflects_iff (calls : List NetCall) :
    Always Link.step Reflects .init calls ↔ Always Link.step HeardAwake .init calls :=
  always_congr (I := Link.Exact) (fun _ _ hl => reflects_iff_heardAwake hl)
    (fun _ _ hl hheard => hl.step hheard) rfl

/-- The device sleeps when the link is lost: it stays connected and reports go out. -/
theorem not_connected_reflects :
    (∃ l, [.status .cloudConn, .event (.staDisconnected false .noApFound)].foldl
        Link.step .init = l ∧ l.net.connected = true ∧ l.up = false ∧
      (l.net.reportDp ⟨101, .value 5⟩).ok = true) ∧
    ¬ Always Link.step Reflects .init
      [.status .cloudConn, .event (.staDisconnected false .noApFound)] := by
  refine ⟨⟨_, rfl, rfl, rfl, rfl⟩, fun h => ?_⟩
  exact nomatch h.2.1.connected rfl

end Ivy.Spec
