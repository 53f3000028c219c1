import Ivy.Spec.Provisioning

/-!
# Bounded reconnects

After a disconnection `net_event_handler` asks the driver to connect again. It counts these
calls by two groups of reasons, gives notice when a count reaches its bound, tries once
more and then gives up, until a connection sets both counts back.
-/

namespace Ivy.Spec

open Ivy.Native Ivy.Lts

/-! ## Calls and what they do -/

/-- The calls that reach the network, and the changes of `in_provision`. -/
inductive RetryCall
  | net (c : NetCall)
  | setInProvision (inside : Bool)
  deriving DecidableEq, Repr

def retryStep (n : NetInterface) : RetryCall → NetInterface
  | .net c => netStep n c
  | .setInProvision inside => n.setInProvision inside

/-- `SYSTEM_EVENT_STA_CONNECTED` -/
def RetryCall.connected : RetryCall := .net (.event .staConnected)

/-- The groups of reasons for a disconnection. -/
inductive Cause
  | handshake
  | noAp
  | other
  deriving DecidableEq, Repr

def causeOf : NetInterface.Reason → Cause
  | .fourWayHandshakeTimeout | .handshakeTimeout => .handshake
  | .noApFound => .noAp
  | .other _ => .other

/-- The cause of the disconnection that the call tells of, if it does. -/
def RetryCall.cause : RetryCall → Option Cause
  | .net (.event (.staDisconnected _ reason)) => some (causeOf reason)
  | _ => none

/-- What a call adds to the log. -/
def newEffects (n : NetInterface) (c : RetryCall) : List NetEffect :=
  (retryStep n c).log.drop n.log.length

/-- The calls of `esp_wifi_connect` made for a cause. -/
def attempts (cause : Cause) (n : NetInterface) (c : RetryCall) : Nat :=
  if c.cause = some cause then (newEffects n c).count .espWifiConnect else 0

/-- The call writes the status. No handler reads it, so a write of a status is seen from a
    state in which it was different. -/
def Writes (status : ProvStatus) (n : NetInterface) (c : RetryCall) : Prop :=
  (retryStep { n with provStatus := .noNeed } c).provStatus = status

instance (status : ProvStatus) (n : NetInterface) (c : RetryCall) :
    Decidable (Writes status n c) :=
  inferInstanceAs (Decidable (_ = _))

/-- The notices of a failure to connect: the status is written or the tip is shown. -/
def notices (status : ProvStatus) (tip : TipText) (n : NetInterface) (c : RetryCall) : Nat :=
  (if Writes status n c then 1 else 0) + (newEffects n c).count (.uiTextTip .connectFail tip)

/-- The notices that the access point was not found. -/
def apNotices : NetInterface → RetryCall → Nat := notices .apNotFound .reasonApNotFound

/-- The notices that the connection has failed. -/
def failNotices : NetInterface → RetryCall → Nat := notices .wifiConnFail .failReset

/-! ## One call -/

/-- All that matters here of one call: what it does, and the counts it leaves. -/
structure Effort where
  connects : Nat
  apNotices : Nat
  failNotices : Nat
  apFind : Nat
  wifiConnect : Nat
  deriving DecidableEq, Repr

def effort (n : NetInterface) (c : RetryCall) : Effort where
  connects := (newEffects n c).count .espWifiConnect
  apNotices := apNotices n c
  failNotices := failNotices n c
  apFind := (retryStep n c).apFindRetryNum
  wifiConnect := (retryStep n c).wifiConnectRetryNum

/-- The effort of a call, from the counts alone. -/
def effortSpec (apFind wifiConnect : Nat) : RetryCall → Effort
  | .net (.event .staConnected) => ⟨0, 0, 0, 0, 0⟩
  | .net (.event (.staDisconnected true .noApFound)) =>
    if apFind < 16 then ⟨1, 0, 0, apFind + 1, wifiConnect⟩
    else if apFind = 16 then ⟨1, 1, 0, apFind + 1, wifiConnect⟩
    else ⟨0, 0, 0, apFind, wifiConnect⟩
  | .net (.event (.staDisconnected true (.other _))) =>
    if wifiConnect < 6 then ⟨1, 0, 0, apFind, wifiConnect + 1⟩
    else if wifiConnect = 6 then ⟨1, 0, 1, apFind, wifiConnect + 1⟩
    else ⟨0, 0, 0, apFind, wifiConnect⟩
  | _ => ⟨0, 0, 0, apFind, wifiConnect⟩

section

variable (n : NetInterface)

attribute [local simp] effort apNotices failNotices notices Writes newEffects retryStep netStep
  NetInterface.emit NetInterface.setProvStatus NetInterface.netEventHandler

/-- What a missing access point costs, -/
theorem effort_noAp :
    effort n (.net (.event (.staDisconnected true .noApFound))) =
      effortSpec n.apFindRetryNum n.wifiConnectRetryNum
        (.net (.event (.staDisconnected true .noApFound))) := by
  obtain ⟨inProvision, _, _, _, apFind⟩ := n
  by_cases hlt : apFind < 16
  · simp [effortSpec, NetInterface.disconnectedNoAp, wifiApFindMaxnumRetry, hlt]
  · by_cases heq : apFind = 16
    · -- the last attempt, with a notice of one of two kinds
      cases inProvision <;>
        simp [effortSpec, NetInterface.disconnectedNoAp, wifiApFindMaxnumRetry, heq]
    · simp [effortSpec, NetInterface.disconnectedNoAp, wifiApFindMaxnumRetry, hlt, heq]

/-- and any other disconnect. -/
theorem effort_other (code : UInt8) :
    effort n (.net (.event (.staDisconnected true (.other code)))) =
      effortSpec n.apFindRetryNum n.wifiConnectRetryNum
        (.net (.event (.staDisconnected true (.other code)))) := by
  obtain ⟨inProvision, _, _, wifiConnect⟩ := n
  by_cases hlt : wifiConnect < 6
  · simp [effortSpec, NetInterface.disconnectedOther, wifiConnectMaxnumRetry, hlt]
  · by_cases heq : wifiConnect = 6
    · -- the same last attempt: a status during provisioning, a tip outside of it
      cases inProvision <;>
        simp [effortSpec, NetInterface.disconnectedOther, wifiConnectMaxnumRetry, heq]
    · simp [effortSpec, NetInterface.disconnectedOther, wifiConnectMaxnumRetry, hlt, heq]

/-- The effort of an event, -/
theorem effort_event (e : NetInterface.Event) :
    effort n (.net (.event e)) =
      effortSpec n.apFindRetryNum n.wifiConnectRetryNum (.net (.event e)) := by
  cases e with
  | scanDone | staStart | staLostIp | other | staConnected => simp [effortSpec]
  | staDisconnected awake reason =>
    cases awake with
    | false => simp [effortSpec]
    | true =>
      cases reason with
      -- a wrong password is not tried again
      | fourWayHandshakeTimeout | handshakeTimeout =>
        obtain ⟨inProvision⟩ := n
        cases inProvision <;> simp [effortSpec]
      | noApFound => exact effort_noAp n
      | other code => exact effort_other n code
  | staGotIp ip | staBssRssiLow =>
    -- these two write the status during provisioning and count nothing
    obtain ⟨inProvision⟩ := n
    cases inProvision <;> simp [effortSpec]

/-- and of a change of the status. -/
theorem effort_status (s : NetInterface.NwStat) :
    effort n (.net (.status s)) =
      effortSpec n.apFindRetryNum n.wifiConnectRetryNum (.net (.status s)) := by
  obtain ⟨inProvision⟩ := n
  cases s <;> cases inProvision <;>
    simp [effortSpec, NetInterface.netStatusChangeHandler, NetInterface.setInProvision]

/-- A call does what the counts say. -/
theorem effort_eq (c : RetryCall) :
    effort n c = effortSpec n.apFindRetryNum n.wifiConnectRetryNum c := by
  cases c with
  | setInProvision inside => cases inside <;> simp [effortSpec, NetInterface.setInProvision]
  | net c =>
    cases c with
    | event e => exact effort_event n e
    | status s => exact effort_status n s
    -- the Bluetooth calls do not touch the counters
    | btInit controller =>
      cases controller <;> simp [effortSpec, NetInterface.tuyaIotBtInit]
    | btStop =>
      obtain ⟨_, _, _, _, _, _, btStopFlag⟩ := n
      cases btStopFlag <;> simp [effortSpec, NetInterface.tuyaIotBtStop]

end

/-! ## What the counts pay for -/

/-- The counts are within their bounds. -/
structure WithinBounds (n : NetInterface) : Prop where
  apFind : n.apFindRetryNum ≤ 17
  wifiConnect : n.wifiConnectRetryNum ≤ 7

/-- Each attempt and each notice of the effort raises a count: an attempt by one, a notice
    up to the bound. -/
structure Effort.Paid (e : Effort) (apFind wifiConnect : Nat) (cause : Option Cause) :
    Prop where
  noAp : (if cause = some .noAp then e.connects else 0) + apFind ≤ e.apFind
  other : (if cause = some .other then e.connects else 0) + wifiConnect ≤ e.wifiConnect
  handshake : (if cause = some .handshake then e.connects else 0) = 0
  apNotices : e.apNotices + apFind / 17 ≤ e.apFind / 17
  failNotices : e.failNotices + wifiConnect / 7 ≤ e.wifiConnect / 7

/-- Every attempt has a cause. -/
theorem effortSpec_paid {apFind wifiConnect : Nat} {c : RetryCall} (hc : c ≠ .connected) :
    (effortSpec apFind wifiConnect c).Paid apFind wifiConnect c.cause := by
  unfold effortSpec
  split
  · exact absurd rfl hc
  · -- the count of the access points
    split
    · constructor <;> simp [RetryCall.cause, causeOf] <;> omega
    · split <;> constructor <;> simp [RetryCall.cause, causeOf] <;> omega
  · -- the count of the other reasons
    split
    · constructor <;> simp [RetryCall.cause, causeOf] <;> omega
    · split <;> constructor <;> simp [RetryCall.cause, causeOf] <;> omega
  · constructor <;> simp

/-- The counters stay within their bounds. -/
theorem effortSpec_le {apFind wifiConnect : Nat} (hap : apFind ≤ 17) (hwifi : wifiConnect ≤ 7)
    (c : RetryCall) :
    (effortSpec apFind wifiConnect c).apFind ≤ 17 ∧
      (effortSpec apFind wifiConnect c).wifiConnect ≤ 7 := by
  unfold effortSpec
  split
  · exact ⟨Nat.zero_le _, Nat.zero_le _⟩
  · split
    · dsimp only
      omega
    · split <;> dsimp only <;> omega
  · split
    · dsimp only
      omega
    · split <;> dsimp only <;> omega
  · exact ⟨hap, hwifi⟩

section

variable {n : NetInterface} {c : RetryCall} {calls : List RetryCall}

/-- So do they in each call, -/
theorem WithinBounds.step (h : WithinBounds n) (c : RetryCall) : WithinBounds (retryStep n c) := by
  -- the counts of the code are those of the specification
  have hle := effortSpec_le h.apFind h.wifiConnect c
  rw [← effort_eq] at hle
  exact ⟨hle.1, hle.2⟩

/-- and in all of them. -/
theorem WithinBounds.foldl (h : WithinBounds n) (calls : List RetryCall) :
    WithinBounds (calls.foldl retryStep n) := by
  induction calls generalizing n with
  | nil => exact h
  | cons c calls ih => exact ih (h.step c)

/-- The code's attempts are those of the specification, each with its cause. -/
theorem effort_paid (n : NetInterface) (hc : c ≠ .connected) :
    (effort n c).Paid n.apFindRetryNum n.wifiConnectRetryNum c.cause := by
  rw [effort_eq]
  exact effortSpec_paid hc

/-- As long as no connection sets the counts back, what is done and what is left below the
    bounds add up to no more than the bounds. -/
theorem total_retry_le (h : WithinBounds n) (hcalls : ∀ c ∈ calls, c ≠ .connected) :
    total retryStep (attempts .noAp) n calls + n.apFindRetryNum ≤ 17 ∧
      total retryStep (attempts .other) n calls + n.wifiConnectRetryNum ≤ 7 ∧
      total retryStep (attempts .handshake) n calls = 0 ∧
      total retryStep apNotices n calls + n.apFindRetryNum / 17 ≤ 1 ∧
      total retryStep failNotices n calls + n.wifiConnectRetryNum / 7 ≤ 1 := by
  -- `total_add_le` with a measure that each call raises by what it adds: a count for the
  -- attempts, a count divided by its bound for the notices
  have hkeep : ∀ n c, WithinBounds n → WithinBounds (retryStep n c) := fun _ c h => h.step c
  refine ⟨?_, ?_, ?_, ?_, ?_⟩
  · exact total_add_le (fun n _ _ hc => (effort_paid n hc).noAp) hkeep
      (fun _ h => h.apFind) h hcalls
  · exact total_add_le (fun n _ _ hc => (effort_paid n hc).other) hkeep
      (fun _ h => h.wifiConnect) h hcalls
  · -- nothing pays for an attempt after a handshake timeout
    have hnone := total_add_le (m := fun _ => 0)
      (fun n _ _ hc => Nat.le_of_eq (effort_paid n hc).handshake) hkeep
      (fun _ _ => Nat.le_refl 0) h hcalls
    exact Nat.le_zero.mp hnone
  · exact total_add_le (fun n _ _ hc => (effort_paid n hc).apNotices) hkeep
      (fun _ h => Nat.div_le_div_right h.apFind) h hcalls
  · exact total_add_le (fun n _ _ hc => (effort_paid n hc).failNotices) hkeep
      (fun _ h => Nat.div_le_div_right h.wifiConnect) h hcalls

end

/-! ## Between two connections -/

/-- For every sequence of calls after start-up and every stretch after it in which no
    connection comes: the handler asks for a connection at most 17 times because no access
    point was found, at most 7 times for the other reasons and never after a handshake
    timeout, and gives each notice at most once. The counts stay within their bounds. -/
theorem reconnects_bounded (before calls : List RetryCall)
    (hcalls : ∀ c ∈ calls, c ≠ .connected) :
    total retryStep (attempts .noAp) (before.foldl retryStep .init) calls ≤ 17 ∧
      total retryStep (attempts .other) (before.foldl retryStep .init) calls ≤ 7 ∧
      total retryStep (attempts .handshake) (before.foldl retryStep .init) calls = 0 ∧
      total retryStep apNotices (before.foldl retryStep .init) calls ≤ 1 ∧
      total retryStep failNotices (before.foldl retryStep .init) calls ≤ 1 ∧
      ((before ++ calls).foldl retryStep .init).apFindRetryNum ≤ 17 ∧
      ((before ++ calls).foldl retryStep .init).wifiConnectRetryNum ≤ 7 := by
  -- whatever came before the stretch, the counts are within their bounds
  have hinit : WithinBounds .init := ⟨by decide, by decide⟩
  have hend := hinit.foldl (before ++ calls)
  obtain ⟨hnoAp, hother, hshake, hap, hfail⟩ := total_retry_le (hinit.foldl before) hcalls
  exact ⟨by omega, by omega, hshake, by omega, by omega, hend.apFind, hend.wifiConnect⟩

/-- Eighteen times no access point is found, and eight times the connection fails. -/
def manyFailures : List RetryCall :=
  List.replicate 18 (.net (.event (.staDisconnected true .noApFound))) ++
    List.replicate 8 (.net (.event (.staDisconnected true (.other 8))))

/-- The bounds are reached. -/
theorem reconnects_bounded_many :
    total retryStep (attempts .noAp) .init manyFailures = 17 ∧
      total retryStep (attempts .other) .init manyFailures = 7 ∧
      total retryStep apNotices .init manyFailures = 1 ∧
      total retryStep failNotices .init manyFailures = 1 ∧
      total retryStep (attempts .handshake) .init manyFailures = 0 ∧
      (manyFailures.foldl retryStep .init).apFindRetryNum ≤ 17 := by
  have hbound := reconnects_bounded [] manyFailures (by decide)
  refine ⟨by decide +kernel, by decide +kernel, by decide +kernel, by decide +kernel,
    hbound.2.2.1, ?_⟩
  exact hbound.2.2.2.2.2.1

end Ivy.Spec
