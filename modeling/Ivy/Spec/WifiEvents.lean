import Ivy.ForStd.Transition
import Ivy.Native.TklWifi
import Mathlib.Data.List.Induction

/-!
# What the SDK hears of the link

`tkl_wifi_event_handler` keeps the event told last and the status of the station, and tells
the SDK of changes. A beacon timeout or a change of the authentication mode is told as a
disconnection even if nothing was connected, and an empty scan is told as a failure without
being kept: these are the events at which the history goes wrong. The address handed out
does not depend on them.
-/

namespace Ivy.Spec

open Ivy.Native Ivy.Lts

/-! ## The texts of addresses -/

/-- A byte has three digits at most. -/
theorem length_digits_byte (n : Nat) : (Nat.toDigits 10 (n % 256)).length ≤ 3 := by
  -- one byte after the other
  have hall : ∀ b < 256, (Nat.toDigits 10 b).length ≤ 3 := by decide +kernel
  exact hall _ (Nat.mod_lt _ (by decide))

/-- A dotted address fits its sixteen characters with the terminator. -/
theorem length_dotted_lt (addr : UInt32) : (dotted addr).length < 16 := by
  -- four times three digits and three dots
  have h0 := length_digits_byte (addr.toNat / 256 ^ 0)
  have h1 := length_digits_byte (addr.toNat / 256 ^ 1)
  have h2 := length_digits_byte (addr.toNat / 256 ^ 2)
  have h3 := length_digits_byte (addr.toNat / 256 ^ 3)
  simp only [dotted, List.length_append, List.length_cons]
  omega

/-- Every address has a text that fits. -/
theorem espIp4addrNtoa_eq (addr : UInt32) :
    espIp4addrNtoa addr = some ⟨dotted addr, length_dotted_lt addr⟩ :=
  dif_pos (length_dotted_lt addr)

/-- The texts of an address, its mask and its gateway. -/
def IpInfo.texts (info : IpInfo) : NwIp :=
  ⟨⟨_, length_dotted_lt info.ip⟩, ⟨_, length_dotted_lt info.netmask⟩,
    ⟨_, length_dotted_lt info.gw⟩⟩

/-! ## Well-formed histories -/

/-- A disconnection is told only right after a connection. -/
def WellFormed (l : List WfEvent) : Prop :=
  ∀ pre post, l = pre ++ .disconnected :: post → pre.getLast? = some .connected

/-- Nothing has been told yet. -/
theorem wellFormed_nil : WellFormed [] := by
  intro pre post h
  simp at h

/-- The last event decides. -/
theorem wellFormed_concat {l : List WfEvent} {e : WfEvent} :
    WellFormed (l ++ [e]) ↔
      WellFormed l ∧ (e = .disconnected → l.getLast? = some .connected) := by
  constructor
  · intro h
    constructor
    · rintro pre post rfl
      exact h pre (post ++ [e]) (by simp)
    · rintro rfl
      exact h l [] rfl
  · rintro ⟨hl, he⟩ pre post heq
    -- the disconnection is the last event or an earlier one
    rcases List.eq_nil_or_concat post with rfl | ⟨post', x, rfl⟩
    · obtain ⟨rfl, hx⟩ := List.append_inj' heq rfl
      exact he (List.singleton_inj.mp hx)
    · -- an earlier one: what stands before it is the same in the shorter list
      rw [List.concat_eq_append, ← List.cons_append, ← List.append_assoc] at heq
      obtain ⟨rfl, -⟩ := List.append_inj' heq rfl
      exact hl pre post' rfl

/-- The status of a station that is not connected because something has failed. -/
def StationStat.isFailure : StationStat → Bool
  | .noApFound | .passwdWrong | .connFail => true
  | _ => false

/-- The history told and the two variables fit together. -/
structure StationConsistent (w : WifiStation) : Prop where
  history : WellFormed w.delivered
  gotIp : w.connStatus = .gotIp → w.evtState = some .connected
  failure : StationStat.isFailure w.connStatus = true → w.evtState ≠ some .connected

/-! ## The link, by the events alone -/

/-- Where the link stands: never up since the last failure, up, or lost after it was up. -/
inductive LinkPhase
  | down
  | up
  | lost
  deriving DecidableEq, Repr

def LinkPhase.after (p : LinkPhase) : EspEvent → LinkPhase
  | .staGotIp _ => .up
  | .staDisconnected _ => if p = .up then .lost else .down
  | .staAuthmodeChange | .staBeaconTimeout => .lost
  | _ => p

structure StationHistory where
  station : WifiStation
  phase : LinkPhase
  deriving DecidableEq, Repr

/-- `tkl_wifi_init` was called with a callback. -/
def StationHistory.init : StationHistory := ⟨.init true, .down⟩

def StationHistory.step (h : StationHistory) (e : EspEvent) : StationHistory :=
  ⟨h.station.eventHandler e, h.phase.after e⟩

/-- The event leaves the history and the variables consistent. -/
def KeepsConsistent (h : StationHistory) (e : EspEvent) : Prop :=
  StationConsistent (h.step e).station

/-- A beacon timeout or a change of the authentication mode comes only when the link is up
    or was lost, and an empty scan only when it is not up. -/
def EventsOrderly (h : StationHistory) : EspEvent → Prop
  | .staAuthmodeChange | .staBeaconTimeout => h.phase ≠ .down
  | .scanDone ssidNum => ssidNum = 0 → h.phase ≠ .up
  | _ => True

/-- Where the link stands by the event told last. -/
def phaseOf : Option WfEvent → LinkPhase
  | some .connected => .up
  | some .disconnected => .lost
  | some .connectFailed | none => .down

/-- The variables say where the link stands. -/
structure StationHistory.Settled (h : StationHistory) : Prop where
  cb : h.station.eventCb = true
  phase : phaseOf h.station.evtState = h.phase
  told : h.station.delivered.getLast? = some .connected ↔ h.phase = .up
  history : WellFormed h.station.delivered
  gotIp : h.station.connStatus = .gotIp → h.phase = .up
  failure : StationStat.isFailure h.station.connStatus = true → h.phase ≠ .up

/-- The station as initialised. -/
theorem settled_init : StationHistory.init.Settled where
  cb := rfl
  phase := rfl
  told := by decide
  history := wellFormed_nil
  gotIp := nofun
  failure := nofun

section

variable {h : StationHistory}

/-- The last event that was told says whether the link is up. -/
theorem StationHistory.Settled.up (hs : h.Settled) :
    h.station.evtState = some .connected ↔ h.phase = .up := by
  rw [← hs.phase]
  unfold phaseOf
  split <;> simp_all

/-- It says as well whether the link was lost. -/
theorem StationHistory.Settled.lost (hs : h.Settled) :
    h.station.evtState = some .disconnected ↔ h.phase = .lost := by
  rw [← hs.phase]
  unfold phaseOf
  split <;> simp_all

/-- The invariant gives the consistency of the status. -/
theorem StationHistory.Settled.consistent (hs : h.Settled) : StationConsistent h.station where
  history := hs.history
  gotIp hgot := hs.up.mpr (hs.gotIp hgot)
  failure hfail hup := hs.failure hfail (hs.up.mp hup)

/-- Only the status is written. -/
theorem StationHistory.Settled.status (hs : h.Settled) (status : StationStat)
    (ipAddrs : NwIp) (hgot : status ≠ .gotIp)
    (hfail : StationStat.isFailure status = true → h.phase ≠ .up) :
    StationHistory.Settled
      ⟨{ h.station with connStatus := status, ipAddrs := ipAddrs }, h.phase⟩ where
  cb := hs.cb
  phase := hs.phase
  told := hs.told
  history := hs.history
  gotIp heq := absurd heq hgot
  failure := hfail

/-- The event `e` is told, and the variables are written with it. -/
theorem StationHistory.Settled.tell {e : WfEvent} {w : WifiStation} {phase : LinkPhase}
    (hs : h.Settled) (hcb : w.eventCb = true)
    (hdelivered : w.delivered = h.station.delivered ++ [e])
    (hdisc : e = .disconnected → h.phase = .up) (htold : e = .connected ↔ phase = .up)
    (hphase : phaseOf w.evtState = phase)
    (hgot : w.connStatus = .gotIp → phase = .up)
    (hfail : StationStat.isFailure w.connStatus = true → phase ≠ .up) :
    StationHistory.Settled ⟨w, phase⟩ where
  cb := hcb
  phase := hphase
  told := by simp [hdelivered, htold]
  -- a disconnect follows a connection, as the phase was up
  history := by
    show WellFormed w.delivered
    rw [hdelivered]
    exact wellFormed_concat.mpr ⟨hs.history, fun he => hs.told.mpr (hdisc he)⟩
  gotIp := hgot
  failure := hfail

/-! ## One event -/

section

variable {w : WifiStation}

/-- The status that a disconnection leaves. -/
def reasonStat : DisconnectReason → StationStat
  | .noApFound => .noApFound
  | .handshakeTimeout => .passwdWrong
  | .other _ => .connFail

/-- What a disconnection is told as, by the event told last. -/
def lossEvent (evt : Option WfEvent) : WfEvent :=
  if evt = some .connected then .disconnected else .connectFailed

/-- What a disconnect changes. -/
theorem onDisconnected_eq (hcb : w.eventCb = true) (reason : DisconnectReason) :
    w.onDisconnected reason =
      { w with
        connStatus := reasonStat reason, ipAddrs := .zero
        evtState := some (lossEvent w.evtState)
        delivered := w.delivered ++ [lossEvent w.evtState] } := by
  by_cases hevt : w.evtState = some .connected <;> cases reason <;>
    simp [WifiStation.onDisconnected, WifiStation.notify, reasonStat, lossEvent, hcb, hevt]

/-- What the loss of the link changes. -/
theorem onLinkLost_of_ne (hcb : w.eventCb = true) (hevt : w.evtState ≠ some .disconnected) :
    w.onLinkLost =
      { w with
        connStatus := .connFail, ipAddrs := .zero, evtState := some .disconnected
        delivered := w.delivered ++ [.disconnected] } := by
  simp [WifiStation.onLinkLost, WifiStation.notify, hcb, hevt]

/-- A loss that was told is not told again. -/
theorem onLinkLost_of_disconnected (hevt : w.evtState = some .disconnected) :
    w.onLinkLost = w := by
  simp [WifiStation.onLinkLost, hevt]

/-- An empty scan tells of a failure, if that was not told last, but does not keep it. -/
theorem onScanDone_zero (hcb : w.eventCb = true) :
    w.onScanDone 0 =
      { w with
        connStatus := .noApFound, ipAddrs := .zero
        delivered :=
          if w.evtState = some .connectFailed then w.delivered
          else w.delivered ++ [.connectFailed] } := by
  by_cases hevt : w.evtState = some .connectFailed <;>
    simp [WifiStation.onScanDone, WifiStation.notify, hcb, hevt]

/-- A scan with results changes nothing. -/
theorem onScanDone_of_ne {ssidNum : UInt16} (h : ssidNum ≠ 0) : w.onScanDone ssidNum = w :=
  if_neg h

/-- What an address changes. -/
theorem onGotIp_eq (hcb : w.eventCb = true) (info : IpInfo) :
    w.onGotIp info =
      { w with
        connStatus := .gotIp, ipAddrs := IpInfo.texts info, evtState := some .connected
        delivered := w.delivered ++ [.connected] } := by
  simp [WifiStation.onGotIp, WifiStation.notify, IpInfo.texts, espIp4addrNtoa_eq, hcb]

end

/-- A disconnect is told as a loss if the link was up, and else as a failure. -/
theorem StationHistory.Settled.disconnected (hs : h.Settled) (reason : DisconnectReason) :
    (h.step (.staDisconnected reason)).Settled := by
  have hgot : reasonStat reason ≠ .gotIp := by cases reason <;> nofun
  show StationHistory.Settled
    ⟨h.station.onDisconnected reason, if h.phase = .up then .lost else .down⟩
  rw [onDisconnected_eq hs.cb]
  by_cases hup : h.phase = .up
  · -- the callback is told a loss only if it was told the connection
    have htold : lossEvent h.station.evtState = .disconnected := if_pos (hs.up.mpr hup)
    rw [htold, if_pos hup]
    exact hs.tell hs.cb rfl (fun _ => hup) (by decide) rfl
      (fun heq => absurd heq hgot) nofun
  · have htold : lossEvent h.station.evtState = .connectFailed := if_neg (mt hs.up.mp hup)
    rw [htold, if_neg hup]
    exact hs.tell hs.cb rfl nofun (by decide) rfl
      (fun heq => absurd heq hgot) nofun

/-- The loss of a link that was there. -/
theorem StationHistory.Settled.linkLost (hs : h.Settled) (hphase : h.phase ≠ .down) :
    StationHistory.Settled ⟨h.station.onLinkLost, .lost⟩ := by
  by_cases hlost : h.phase = .lost
  · -- told already
    rw [onLinkLost_of_disconnected (hs.lost.mpr hlost), ← hlost]
    exact hs
  · have hup : h.phase = .up := by
      cases hp : h.phase with
      | down => exact absurd hp hphase
      | up => rfl
      | lost => exact absurd hp hlost
    rw [onLinkLost_of_ne hs.cb (mt hs.lost.mp hlost)]
    exact hs.tell hs.cb rfl (fun _ => hup) (by decide) rfl nofun nofun

/-- A scan without results. -/
theorem StationHistory.Settled.emptyScan (hs : h.Settled) (hphase : h.phase ≠ .up) :
    StationHistory.Settled ⟨h.station.onScanDone 0, h.phase⟩ := by
  rw [onScanDone_zero hs.cb]
  split
  · -- a failure was told last, and is not told again
    exact hs.status .noApFound .zero nofun fun _ => hphase
  · exact hs.tell hs.cb rfl nofun (iff_of_false nofun hphase) hs.phase nofun
      fun _ => hphase

/-- An address is told as a connection. -/
theorem StationHistory.Settled.gotIp_step (hs : h.Settled) (info : IpInfo) :
    (h.step (.staGotIp info)).Settled := by
  show StationHistory.Settled ⟨h.station.onGotIp info, .up⟩
  rw [onGotIp_eq hs.cb]
  exact hs.tell hs.cb rfl nofun (by decide) rfl (fun _ => rfl) nofun

/-- Orderly events keep the invariant. -/
theorem EventsOrderly.settled {e : EspEvent} (hord : EventsOrderly h e) (hs : h.Settled) :
    (h.step e).Settled := by
  cases e with
  | staDisconnected reason => exact hs.disconnected reason
  | staAuthmodeChange | staBeaconTimeout => exact hs.linkLost hord
  | scanDone ssidNum =>
    by_cases hzero : ssidNum = 0
    · subst hzero
      exact hs.emptyScan (hord rfl)
    · -- only an empty scan changes the status
      show StationHistory.Settled ⟨h.station.onScanDone ssidNum, h.phase⟩
      rw [onScanDone_of_ne hzero]
      exact hs
  | staGotIp info => exact hs.gotIp_step info
  | staStart connect =>
    cases connect with
    | true => exact hs.status .connecting _ nofun nofun
    | false => exact hs
  -- the station has no address yet, and the SDK is not told
  | staConnected => exact hs.status .connSuccess _ nofun nofun
  | staBssRssiLow | actionTxStatus | rocDone | apStaConnected | apStaDisconnected | other =>
    exact hs

/-- With nothing connected before, the disconnection told breaks the history. -/
theorem StationHistory.Settled.not_linkLost (hs : h.Settled) (hphase : h.phase = .down) :
    ¬ StationConsistent h.station.onLinkLost := by
  -- the event is told, since no disconnection was told last
  have hnot : h.station.evtState ≠ some .disconnected := fun hevt =>
    nomatch hphase.symm.trans (hs.lost.mp hevt)
  rw [onLinkLost_of_ne hs.cb hnot]
  intro hc
  have hlast := (wellFormed_concat.mp hc.history).2 rfl
  exact nomatch hphase.symm.trans (hs.told.mp hlast)

/-- Only orderly events do. -/
theorem keepsConsistent_iff_eventsOrderly {e : EspEvent} (hs : h.Settled) :
    KeepsConsistent h e ↔ EventsOrderly h e := by
  constructor
  · intro hkeeps
    cases e with
    | staAuthmodeChange | staBeaconTimeout =>
      exact fun hphase => hs.not_linkLost hphase hkeeps
    | scanDone ssidNum =>
      rintro rfl hup
      -- the status fails while the link counts as connected
      have hc : StationConsistent (h.station.onScanDone 0) := hkeeps
      rw [onScanDone_zero hs.cb] at hc
      exact hc.failure rfl (hs.up.mpr hup)
    | _ => trivial
  · intro hord
    exact (hord.settled hs).consistent

end

/-- For every sequence of events after `tkl_wifi_init`: the SDK is told of a disconnection
    only after a connection, and the event kept and the status fit together, exactly if
    every beacon timeout or change of the authentication mode comes when the link is up or
    was lost, and every empty scan when it is not up. -/
theorem wifi_history_consistent_iff (events : List EspEvent) :
    Always StationHistory.step KeepsConsistent .init events ↔
      Always StationHistory.step EventsOrderly .init events :=
  always_congr (I := StationHistory.Settled) (fun _ _ hs => keepsConsistent_iff_eventsOrderly hs)
    (fun _ _ hs hord => hord.settled hs) settled_init

/-- A beacon timeout while the station connects is told as a disconnection. An empty scan
    while the station has its address leaves the status at `WSS_NO_AP_FOUND` and the event
    kept at `WFE_CONNECTED`. -/
theorem not_wifi_history_consistent :
    (([.staStart true, .staBeaconTimeout] : List EspEvent).foldl StationHistory.step
      .init).station.delivered = [.disconnected] ∧
    (∃ h, ([.staGotIp ⟨1, 2, 3⟩, .scanDone 0] : List EspEvent).foldl StationHistory.step
        .init = h ∧
      h.station.connStatus = .noApFound ∧ h.station.evtState = some .connected) ∧
    ¬ Always StationHistory.step KeepsConsistent .init [.staStart true, .staBeaconTimeout] ∧
    ¬ Always StationHistory.step KeepsConsistent .init [.staGotIp ⟨1, 2, 3⟩, .scanDone 0] := by
  refine ⟨by decide, ⟨_, rfl, by decide, by decide⟩, fun h => ?_, fun h => ?_⟩
  · exact nomatch h.2.1.history [] [] (by decide)
  · exact h.2.1.failure (by decide) (by decide)

/-! ## The address handed out -/

/-- The events after which the address is not valid. -/
def losesIp : EspEvent → Bool
  | .staDisconnected _ | .staBeaconTimeout | .staAuthmodeChange => true
  | .scanDone ssidNum => ssidNum = 0
  | _ => false

/-- The address that is valid after an event. -/
def leaseAfter (lease : Option IpInfo) (e : EspEvent) : Option IpInfo :=
  match e with
  | .staGotIp info => some info
  | e => if losesIp e then none else lease

/-- A valid address was received last, and no event has ended it since. -/
theorem lease_eq_some {events : List EspEvent} {info : IpInfo}
    (h : events.foldl leaseAfter none = some info) :
    ∃ before after, events = before ++ .staGotIp info :: after ∧
      ∀ e ∈ after, losesIp e = false ∧ ∀ info', e ≠ .staGotIp info' := by
  induction events using List.reverseRecOn with
  | nil => exact nomatch h
  -- the last event renews the lease, ends it or keeps it
  | append_singleton events e ih =>
    rw [List.foldl_append, List.foldl_cons, List.foldl_nil] at h
    unfold leaseAfter at h
    split at h
    · cases h
      exact ⟨events, [], rfl, nofun⟩
    · rename_i hnot
      split at h
      · exact nomatch h
      · rename_i hkeeps
        obtain ⟨before, after, rfl, hafter⟩ := ih h
        refine ⟨before, after ++ [e], by simp, fun e' he' => ?_⟩
        rcases List.mem_append.mp he' with hold | hnew
        · exact hafter e' hold
        · cases List.mem_singleton.mp hnew
          exact ⟨Bool.eq_false_iff.mpr hkeeps, hnot⟩

/-- While the status is `WSS_GOT_IP`, the texts kept are those of the valid address. -/
def Leased (w : WifiStation) (lease : Option IpInfo) : Prop :=
  w.connStatus = .gotIp → w.eventCb = true ∧ w.evtState = some .connected ∧
    ∃ info, lease = some info ∧ w.ipAddrs = IpInfo.texts info

section

variable {w : WifiStation} {lease : Option IpInfo}

/-- The status is the reason's. -/
theorem onDisconnected_connStatus (reason : DisconnectReason) :
    (w.onDisconnected reason).connStatus = reasonStat reason := by
  obtain ⟨_, _, eventCb⟩ := w
  cases eventCb <;> cases reason <;> unfold WifiStation.onDisconnected <;> dsimp only <;>
    split <;> rfl

/-- The status after an empty scan. -/
theorem onScanDone_zero_connStatus : (w.onScanDone 0).connStatus = .noApFound := by
  obtain ⟨_, _, eventCb⟩ := w
  cases eventCb
  · simp [WifiStation.onScanDone]
  · rw [onScanDone_zero rfl]

/-- A lost link ends the status, because the event told last was a connection. -/
theorem Leased.linkLost (h : Leased w lease) : w.onLinkLost.connStatus ≠ .gotIp := by
  intro hgot
  by_cases htold : w.eventCb = true ∧ w.evtState ≠ some .disconnected
  · rw [onLinkLost_of_ne htold.1 htold.2] at hgot
    exact nomatch hgot
  · -- nothing is told and written; but then no address was valid
    have hsame : w.onLinkLost = w := if_neg htold
    rw [hsame] at hgot
    obtain ⟨hcb, hevt, -⟩ := h hgot
    exact htold ⟨hcb, by rw [hevt]; nofun⟩

/-- Every event keeps the address and the lease in step. -/
theorem Leased.step (h : Leased w lease) (e : EspEvent) :
    Leased (w.eventHandler e) (leaseAfter lease e) := by
  cases e with
  | staStart connect =>
    cases connect with
    | true => exact nofun
    | false => exact h
  | staConnected => exact nofun
  | staDisconnected reason =>
    intro hgot
    -- no reason stands for `WSS_GOT_IP`
    have hstat : reasonStat reason = .gotIp := (onDisconnected_connStatus reason).symm.trans hgot
    cases reason <;> exact nomatch hstat
  | scanDone ssidNum =>
    by_cases hzero : ssidNum = 0
    · subst hzero
      intro hgot
      exact nomatch onScanDone_zero_connStatus.symm.trans hgot
    · have hlease : leaseAfter lease (.scanDone ssidNum) = lease := by
        simp [leaseAfter, losesIp, hzero]
      rw [hlease]
      show Leased (w.onScanDone ssidNum) lease
      rw [onScanDone_of_ne hzero]
      exact h
  | staAuthmodeChange | staBeaconTimeout => exact fun hgot => absurd hgot h.linkLost
  | staGotIp info =>
    show Leased (w.onGotIp info) (some info)
    by_cases hcb : w.eventCb = true
    · rw [onGotIp_eq hcb]
      exact fun _ => ⟨hcb, rfl, info, rfl, rfl⟩
    · -- without a callback the status is not written, and was not `WSS_GOT_IP`
      intro hgot
      have hsame : (w.onGotIp info).connStatus = w.connStatus := by
        simp [WifiStation.onGotIp, hcb]
      exact absurd (h (hsame.symm.trans hgot)).1 hcb
  | staBssRssiLow | actionTxStatus | rocDone | apStaConnected | apStaDisconnected | other =>
    exact h

/-- So do all of them. -/
theorem Leased.foldl (h : Leased w lease) (events : List EspEvent) :
    Leased (events.foldl WifiStation.eventHandler w) (events.foldl leaseAfter lease) := by
  induction events generalizing w lease with
  | nil => exact h
  | cons e events ih => exact ih (h.step e)

end

/-- For every callback, null or not, and every sequence of events after `tkl_wifi_init`: if
    `tkl_wifi_get_ip` returns an address of the station, an address was received, no event
    has ended it since, and the texts are those of the address received last. -/
theorem station_ip_valid (cb : Bool) (events : List EspEvent) (apInfo : Option IpInfo)
    (ip out : NwIp)
    (hget : (events.foldl WifiStation.eventHandler (.init cb)).getIp .station apInfo ip =
      (.ok, out)) :
    ∃ before info after, events = before ++ .staGotIp info :: after ∧
      (∀ e ∈ after, losesIp e = false ∧ ∀ info', e ≠ .staGotIp info') ∧
      out.ip.chars = dotted info.ip ∧ out.mask.chars = dotted info.netmask ∧
      out.gw.chars = dotted info.gw := by
  have hleased : Leased (.init cb) none := nofun
  unfold WifiStation.getIp at hget
  split at hget
  · split at hget
    · exact nomatch hget
    · rename_i hstat
      -- the status was `WSS_GOT_IP`, so there is a lease
      obtain ⟨-, -, info, hlease, htexts⟩ := hleased.foldl events (Decidable.not_not.mp hstat)
      obtain ⟨before, after, hevents, hafter⟩ := lease_eq_some hlease
      cases hget
      refine ⟨before, info, after, hevents, hafter, ?_⟩
      rw [htexts]
      exact ⟨rfl, rfl, rfl⟩
  · exact nomatch ‹WfIf.station = .ap›
  · exact nomatch ‹WfIf.station = .ap›

/-- A station that has got the address 192.168.4.2. -/
def connectedEvents : List EspEvent :=
  [.staStart true, .staConnected, .staGotIp ⟨0x0204A8C0, 0x00FFFFFF, 0x0104A8C0⟩,
    .scanDone 3]

/-- A station that is connected. -/
theorem station_ip_valid_connected :
    ∃ out, (connectedEvents.foldl WifiStation.eventHandler (.init true)).getIp .station none
        .zero = (.ok, out) ∧
      out.ip.chars = "192.168.4.2".toList ∧
      ∃ before info after, connectedEvents = before ++ .staGotIp info :: after ∧
        (∀ e ∈ after, losesIp e = false ∧ ∀ info', e ≠ .staGotIp info') ∧
        out.ip.chars = dotted info.ip ∧ out.mask.chars = dotted info.netmask ∧
        out.gw.chars = dotted info.gw :=
  ⟨_, rfl, by decide, station_ip_valid true connectedEvents none .zero _ rfl⟩

end Ivy.Spec
