import Ivy.ForStd.Transition
import Ivy.Native.UIProvTip

/-!
# The provisioning screen follows the protocol

The status can change between two ticks, and between the two readings of one tick, in any way.
Still the screen takes the steps of provisioning one after the other: it moves on only in a call
that reads the status it waits for, an error stops it for that call, and an armed restart for
good.

## Key results

- `next_currentStep`: a call that moves on has seen what the step waits for, and no error
- `provTip_follows_protocol`: the protocol over every sequence of calls
-/

namespace Ivy.Spec

open Ivy.Native Ivy.Lts

/-- A status above `prov_err_start`. -/
def IsError (s : ProvStatus) : Prop :=
  ProvStatus.errStart.toNat < s.toNat

instance (s : ProvStatus) : Decidable (IsError s) :=
  inferInstanceAs (Decidable (_ < _))

/-- A status that reaches another one is no error. -/
theorem not_isError_of_reaches {s status : ProvStatus} (h : s.reaches status = true) :
    ¬ IsError s := by
  simp only [ProvStatus.reaches, Bool.and_eq_true, decide_eq_true_eq] at h
  unfold IsError
  omega

/-- The status that each step waits for. -/
def stepGoal : Nat → Option ProvStatus
  | 1 => some .bleConnected
  | 2 => some .wifiConnected
  | 3 => some .activated
  | _ => none

section

variable (x : ProvTexts)

/-- The call of `next` in the state `u` reads the status `s`. -/
def Saw (s : ProvStatus) (u : UIProvTip) (t : ProvTick) : Prop :=
  .provStatus s ∈ (u.next x t).2

/-- The call reads a status of at least `status` that is no error. -/
def SawReached (status : ProvStatus) (u : UIProvTip) (t : ProvTick) : Prop :=
  ∃ s, Saw x s u t ∧ s.reaches status = true

/-- The call reads one of the errors for which the device restarts. -/
def SawFatal (u : UIProvTip) (t : ProvTick) : Prop :=
  Saw x .pwdError u t ∨ Saw x .apNotFound u t

/-! ## The parts of a call -/

section

variable (u : UIProvTip) (t : ProvTick)

/-- Asking for a restart leaves the step. -/
@[simp] theorem setRestart_currentStep (shouldRestart : Bool) (timeout now : UInt32) :
    (u.setRestart shouldRestart timeout now).currentStep = u.currentStep := rfl

/-- The timer leaves the step, -/
@[simp] theorem setNextStatusTimeout_currentStep (timeout now : UInt32) :
    (u.setNextStatusTimeout timeout now).currentStep = u.currentStep := rfl

/-- and the restart. -/
@[simp] theorem setNextStatusTimeout_shouldRestart (timeout now : UInt32) :
    (u.setNextStatusTimeout timeout now).shouldRestart = u.shouldRestart := rfl

/-- Showing an error leaves the step. -/
theorem errorSwitch_currentStep (status : ProvStatus) (now : UInt32) :
    (u.errorSwitch x status now).1.currentStep = u.currentStep := by
  unfold UIProvTip.errorSwitch
  dsimp only
  split
  · rfl
  · -- the two errors that arm the restart
    exact setRestart_currentStep u true _ now
  · exact setRestart_currentStep u true _ now
  · rfl
  · rfl

/-- Two errors arm the restart. -/
theorem errorSwitch_shouldRestart (status : ProvStatus) (now : UInt32) :
    (u.errorSwitch x status now).1.shouldRestart = true ↔
      u.shouldRestart = true ∨ status = .pwdError ∨ status = .apNotFound := by
  cases status <;> simp [UIProvTip.errorSwitch, UIProvTip.setRestart]

/-- Only labels are written. -/
theorem errorSwitch_actions (status : ProvStatus) (now : UInt32) {a : TipAction}
    (h : a ∈ (u.errorSwitch x status now).2) :
    (∃ text, a = .subText text) ∨ ∃ text, a = .bottomText text := by
  cases status <;> simp [UIProvTip.errorSwitch] at h <;> grind

/-- What a look at the status does. -/
theorem checkError_eq :
    u.checkError x t =
      if IsError t.checked ∧ u.currentErr ≠ t.checked.toNat then
        ({ (u.errorSwitch x t.checked t.now).1 with currentErr := t.checked.toNat },
          .provStatus t.checked :: (u.errorSwitch x t.checked t.now).2)
      else ({ u with currentErr := if IsError t.checked then t.checked.toNat else 0 },
        [.provStatus t.checked]) := by
  unfold UIProvTip.checkError
  dsimp only
  -- a new error, the one that is shown, or none
  by_cases herr : IsError t.checked
  · rw [if_pos (show t.checked.toNat > ProvStatus.errStart.toNat from herr)]
    by_cases hsame : u.currentErr = t.checked.toNat
    · -- the same error again: nothing is written
      rw [if_neg (not_not.mpr hsame), if_neg fun h => h.2 hsame, if_pos herr, ← hsame]
    · simp only [herr, hsame, ne_eq, not_false_iff, and_self, if_true]
  · rw [if_neg (show ¬ t.checked.toNat > ProvStatus.errStart.toNat from herr)]
    simp only [herr, false_and, if_false]

/-- Looking for errors leaves the step. -/
theorem checkError_currentStep : (u.checkError x t).1.currentStep = u.currentStep := by
  rw [checkError_eq]
  split
  · exact errorSwitch_currentStep x u t.checked t.now
  · rfl

/-- The error is remembered as long as the status shows it. -/
theorem checkError_currentErr_ne_zero :
    (u.checkError x t).1.currentErr ≠ 0 ↔ IsError t.checked := by
  have hpos : IsError t.checked → t.checked.toNat ≠ 0 := fun herr =>
    Nat.ne_of_gt (Nat.zero_lt_of_lt herr)
  rw [checkError_eq]
  split
  · rename_i h
    exact ⟨fun _ => h.1, hpos⟩
  · by_cases herr : IsError t.checked
    · simpa only [herr, if_true, iff_true] using hpos herr
    · simp only [herr, if_false, ne_eq, not_true]

/-- Only two errors ask for a restart. -/
theorem checkError_shouldRestart (h : (u.checkError x t).1.shouldRestart = true) :
    u.shouldRestart = true ∨ t.checked = .pwdError ∨ t.checked = .apNotFound := by
  rw [checkError_eq] at h
  split at h
  · exact (errorSwitch_shouldRestart x u t.checked t.now).mp h
  · exact Or.inl h

/-- The status is read, and nothing else done that the protocol is about. -/
theorem checkError_actions {a : TipAction} (h : a ∈ (u.checkError x t).2) :
    a = .provStatus t.checked ∨ (∃ text, a = .subText text) ∨ ∃ text, a = .bottomText text := by
  rw [checkError_eq] at h
  split at h
  · exact (List.mem_cons.mp h).imp id (errorSwitch_actions x u t.checked t.now)
  · exact Or.inl (List.mem_singleton.mp h)

/-- Looking for errors reads the status. -/
theorem checkError_reads : .provStatus t.checked ∈ (u.checkError x t).2 := by
  rw [checkError_eq]
  split <;> exact List.mem_cons_self

/-- What the `switch` over the step can do. -/
structure SwitchSpec (r : Bool × UIProvTip × List TipAction) : Prop where
  step : r.2.1.currentStep = u.currentStep
  restart : r.2.1.shouldRestart = u.shouldRestart
  noReboot : .softReboot ∉ r.2.2
  /-- The last step is not left. -/
  notLast : r.1 = true → u.currentStep ≠ 4
  /-- A step is left only if its status was read. -/
  goal : r.1 = true → ∀ status, stepGoal u.currentStep = some status →
    .provStatus t.reached ∈ r.2.2 ∧ t.reached.reaches status = true
  clean : r.1 = true → ∀ s, .provStatus s ∈ r.2.2 → ¬ IsError s

variable {u t}

/-- A step left with `return` has only to leave the rest alone. -/
theorem SwitchSpec.of_return {v : UIProvTip} {done : List TipAction}
    (hstep : v.currentStep = u.currentStep) (hrestart : v.shouldRestart = u.shouldRestart)
    (hdone : .softReboot ∉ done) : SwitchSpec u t (false, v, done) :=
  ⟨hstep, hrestart, hdone, nofun, nofun, nofun⟩

/-- A step left because the status it waits for was read. -/
theorem SwitchSpec.of_reaches {status : ProvStatus} {v : UIProvTip} {done : List TipAction}
    (hgoal : stepGoal u.currentStep = some status) (h : t.reached.reaches status = true)
    (hstep : v.currentStep = u.currentStep) (hrestart : v.shouldRestart = u.shouldRestart)
    (hdone : ∀ a ∈ done, a ≠ .softReboot ∧ ∀ s, a ≠ .provStatus s) :
    SwitchSpec u t (true, v, [.provStatus t.reached] ++ done) where
  step := hstep
  restart := hrestart
  noReboot hin := by
    rcases List.mem_cons.mp hin with hread | hd
    · exact nomatch hread
    · exact (hdone _ hd).1 rfl
  notLast _ hlast := by
    rw [hlast] at hgoal
    exact nomatch hgoal
  goal _ status' hgoal' := by
    rw [hgoal] at hgoal'
    cases hgoal'
    exact ⟨List.mem_cons_self, h⟩
  clean _ s hin := by
    rcases List.mem_cons.mp hin with hread | hd
    · cases hread
      exact not_isError_of_reaches h
    · exact absurd rfl ((hdone _ hd).2 s)

variable (u t)

/-- A status that has been reached is not waited for. -/
theorem reachStatus_of_reaches {status : ProvStatus} (text : String)
    (h : t.reached.reaches status = true) :
    u.reachStatus t status text = (true, u, [.provStatus t.reached]) := by
  unfold UIProvTip.reachStatus
  rw [if_pos h]

/-- A status that is not reached at most shows the text of the step. -/
theorem reachStatus_of_not {status : ProvStatus} (text : String)
    (h : ¬ t.reached.reaches status = true) :
    ∃ v done, u.reachStatus t status text = (false, v, done) ∧
      v.currentStep = u.currentStep ∧ v.shouldRestart = u.shouldRestart ∧
      .softReboot ∉ done := by
  unfold UIProvTip.reachStatus
  rw [if_neg h]
  split
  · exact ⟨_, _, rfl, rfl, rfl, by simp⟩
  · exact ⟨_, _, rfl, rfl, rfl, by simp⟩

/-- A step that waits for a status: it shows its text and returns, or writes its labels and is
    left. -/
theorem SwitchSpec.of_reachStatus {status : ProvStatus} (text : String)
    (after : UIProvTip → UIProvTip) {done : List TipAction}
    (hgoal : stepGoal u.currentStep = some status)
    (hstep : (after u).currentStep = u.currentStep)
    (hrestart : (after u).shouldRestart = u.shouldRestart)
    (hdone : ∀ a ∈ done, a ≠ .softReboot ∧ ∀ s, a ≠ .provStatus s) :
    SwitchSpec u t (match u.reachStatus t status text with
      | (false, v, read) => (false, v, read)
      | (true, v, read) => (true, after v, read ++ done)) := by
  by_cases h : t.reached.reaches status = true
  · rw [reachStatus_of_reaches u t text h]
    exact .of_reaches hgoal h hstep hrestart hdone
  · obtain ⟨v, read, heq, hv, hkept, hread⟩ := reachStatus_of_not u t text h
    rw [heq]
    exact .of_return hv hkept hread

/-- What a step of the screen does. -/
theorem stepSwitch_spec : SwitchSpec u t (u.stepSwitch x t) := by
  unfold UIProvTip.stepSwitch
  split
  · rename_i hstep
    have hgoal : stepGoal u.currentStep = none := by rw [hstep]; rfl
    exact ⟨rfl, rfl, by simp, fun _ => by omega,
      fun _ status hs => absurd (hgoal.symm.trans hs) nofun, by simp⟩
  -- the three steps that wait differ in the status and in the labels
  · rename_i hstep
    apply SwitchSpec.of_reachStatus u t "" fun v => v.setNextStatusTimeout 1500 t.now
    · rw [hstep]; rfl
    · simp
    · simp
    · simp
  · rename_i hstep
    apply SwitchSpec.of_reachStatus u t _ fun v => v.setNextStatusTimeout 1500 t.now
    · rw [hstep]; rfl
    · simp
    · simp
    · simp
  · rename_i hstep
    apply SwitchSpec.of_reachStatus u t _ fun v => v
    · rw [hstep]; rfl
    · rfl
    · rfl
    · simp
  · -- the last step only writes, and is never left
    exact .of_return rfl rfl (by cases t.tutorialComplete <;> cases t.hasPot <;> simp)
  · -- beyond the last step the `switch` has no case, and the step would be left
    rename_i h₀ h₁ h₂ h₃ h₄
    have hgoal : stepGoal u.currentStep = none := by
      unfold stepGoal
      split
      · exact absurd ‹_› h₁
      · exact absurd ‹_› h₂
      · exact absurd ‹_› h₃
      · rfl
    exact ⟨rfl, rfl, by simp, fun _ => h₄,
      fun _ status hs => absurd (hgoal.symm.trans hs) nofun, by simp⟩

/-! ## One call -/

/-- A call that moves on to the next step. -/
structure Advance : Prop where
  step : (u.next x t).1.currentStep = u.currentStep + 1
  running : u.shouldRestart = false
  clean : ∀ s, Saw x s u t → ¬ IsError s
  notLast : u.currentStep ≠ 4
  goal : ∀ status, stepGoal u.currentStep = some status → SawReached x status u t

/-- An armed restart leaves nothing else to do. -/
theorem next_of_shouldRestart (h : u.shouldRestart = true) :
    u.next x t = (u, if t.now > u.restartT then [.softReboot] else []) := by
  unfold UIProvTip.next
  rw [if_pos h]

/-- With an error nothing but the error is shown. -/
theorem next_of_isError (h : u.shouldRestart = false) (herr : IsError t.checked) :
    u.next x t = u.checkError x t := by
  unfold UIProvTip.next
  rw [h, if_neg Bool.false_ne_true]
  -- the call returns behind the look for errors
  exact if_pos ((checkError_currentErr_ne_zero x u t).mpr herr)

/-- Without an error the call goes on to the `switch`. -/
theorem next_of_not_isError (h : u.shouldRestart = false) (herr : ¬ IsError t.checked) :
    ∃ b v done, SwitchSpec (u.checkError x t).1 t (b, v, done) ∧
      u.next x t = (if b then { v with currentStep := v.currentStep + 1 } else v,
        (u.checkError x t).2 ++ done) := by
  have hspec := stepSwitch_spec x (u.checkError x t).1 t
  -- without an error the number is cleared
  have hzero : ¬ (u.checkError x t).1.currentErr ≠ 0 :=
    fun hne => herr ((checkError_currentErr_ne_zero x u t).mp hne)
  rcases hswitch : (u.checkError x t).1.stepSwitch x t with ⟨b, v, done⟩
  rw [hswitch] at hspec
  refine ⟨b, v, done, hspec, ?_⟩
  unfold UIProvTip.next
  rw [h, if_neg Bool.false_ne_true]
  dsimp only
  rw [if_neg hzero, hswitch]
  cases b <;> rfl

/-- A call leaves the step as it is, or has seen what the step waits for. -/
theorem next_currentStep :
    (u.next x t).1.currentStep = u.currentStep ∨ Advance x u t := by
  by_cases hrestart : u.shouldRestart = true
  · rw [next_of_shouldRestart x u t hrestart]
    exact Or.inl rfl
  · have hrun : u.shouldRestart = false := by simpa using hrestart
    by_cases herr : IsError t.checked
    · rw [next_of_isError x u t hrun herr]
      exact Or.inl (checkError_currentStep x u t)
    · obtain ⟨b, v, done, hspec, hnext⟩ := next_of_not_isError x u t hrun herr
      have hstep : v.currentStep = u.currentStep :=
        hspec.step.trans (checkError_currentStep x u t)
      cases b with
      | false =>
        rw [hnext]
        exact Or.inl hstep
      | true =>
        -- the status is read while looking for errors, and again in the step
        have hsaw : ∀ s, Saw x s u t ↔
            .provStatus s ∈ (u.checkError x t).2 ∨ .provStatus s ∈ done := fun s => by
          rw [Saw, hnext, List.mem_append]
        have hgoal := hspec.goal rfl
        rw [checkError_currentStep] at hgoal
        exact Or.inr
          { step := by rw [hnext]; exact congrArg (· + 1) hstep
            running := hrun
            clean := fun s hs => by
              rcases (hsaw s).mp hs with hcheck | hdone
              · rcases checkError_actions x u t hcheck with hread | ⟨_, htext⟩ | ⟨_, htext⟩
                · cases hread
                  exact herr
                · exact nomatch htext
                · exact nomatch htext
              · exact hspec.clean rfl s hdone
            notLast := checkError_currentStep x u t ▸ hspec.notLast rfl
            goal := fun status hs =>
              have ⟨hread, hreaches⟩ := hgoal status hs
              ⟨t.reached, (hsaw _).mpr (Or.inr hread), hreaches⟩ }

/-- Only a fatal error arms the restart. -/
theorem next_shouldRestart (h : (u.next x t).1.shouldRestart = true) :
    u.shouldRestart = true ∨ SawFatal x u t := by
  by_cases hrestart : u.shouldRestart = true
  · exact Or.inl hrestart
  · have hrun : u.shouldRestart = false := by simpa using hrestart
    -- the status is read first, whatever else the call does
    have hread : Saw x t.checked u t := by
      by_cases herr : IsError t.checked
      · rw [Saw, next_of_isError x u t hrun herr]
        exact checkError_reads x u t
      · obtain ⟨b, v, done, _, hnext⟩ := next_of_not_isError x u t hrun herr
        rw [Saw, hnext]
        exact List.mem_append_left done (checkError_reads x u t)
    have harm : (u.checkError x t).1.shouldRestart = true := by
      by_cases herr : IsError t.checked
      · rwa [next_of_isError x u t hrun herr] at h
      · obtain ⟨b, v, done, hspec, hnext⟩ := next_of_not_isError x u t hrun herr
        rw [hnext] at h
        rw [← hspec.restart]
        cases b <;> exact h
    apply Or.inr
    rcases checkError_shouldRestart x u t harm with hold | hpwd | hap
    · exact absurd hold hrestart
    · exact Or.inl (hpwd ▸ hread)
    · exact Or.inr (hap ▸ hread)

/-- The device is restarted only if the restart is armed. -/
theorem next_softReboot (h : .softReboot ∈ (u.next x t).2) : u.shouldRestart = true := by
  by_contra hrestart
  have hrun : u.shouldRestart = false := by simpa using hrestart
  -- looking for errors does not reboot
  have hcheck : .softReboot ∉ (u.checkError x t).2 := fun hin => by
    rcases checkError_actions x u t hin with hread | ⟨_, htext⟩ | ⟨_, htext⟩
    · exact nomatch hread
    · exact nomatch htext
    · exact nomatch htext
  by_cases herr : IsError t.checked
  · rw [next_of_isError x u t hrun herr] at h
    exact hcheck h
  · obtain ⟨b, v, done, hspec, hnext⟩ := next_of_not_isError x u t hrun herr
    rw [hnext] at h
    exact (List.mem_append.mp h).elim hcheck hspec.noReboot

end

/-! ## Every sequence of calls -/

/-- The state after a call. -/
def tick (u : UIProvTip) (t : ProvTick) : UIProvTip :=
  (u.next x t).1

/-- The screen after a sequence of calls. -/
def screen (ts : List ProvTick) : UIProvTip :=
  ts.foldl (tick x) .init

/-- What the calls have seen, the latest first, when a step is reached. -/
def milestones : Nat → List (UIProvTip → ProvTick → Prop)
  | 0 => []
  | 1 => []
  | 2 => [SawReached x .bleConnected]
  | 3 => [SawReached x .wifiConnected, SawReached x .bleConnected]
  | _ => [SawReached x .activated, SawReached x .wifiConnected, SawReached x .bleConnected]

/-- What the calls so far have to do with the state. -/
structure ProvHistory (ts : List ProvTick) (u : UIProvTip) : Prop where
  bound : u.currentStep ≤ 4
  seen : Happened (tick x) .init (milestones x u.currentStep) ts
  armed : u.shouldRestart = true → Happened (tick x) .init [SawFatal x] ts

/-- A call that moves on adds what it has seen to the milestones. -/
theorem happened_milestones {ts : List ProvTick} {t : ProvTick}
    (hseen : Happened (tick x) .init (milestones x (screen x ts).currentStep) ts)
    (hbound : (screen x ts).currentStep ≤ 4) (hadv : Advance x (screen x ts) t) :
    Happened (tick x) .init (milestones x ((screen x ts).currentStep + 1)) (ts ++ [t]) := by
  have hlast := hadv.notLast
  have hgoal := hadv.goal
  -- a step that is left is one of the first four
  have hcases : (screen x ts).currentStep = 0 ∨ (screen x ts).currentStep = 1 ∨
      (screen x ts).currentStep = 2 ∨ (screen x ts).currentStep = 3 := by omega
  rcases hcases with h | h | h | h <;> rw [h] at hseen hgoal ⊢
  · trivial
  · exact hseen.snoc (hgoal _ rfl)
  · exact hseen.snoc (hgoal _ rfl)
  · exact hseen.snoc (hgoal _ rfl)

/-- What the screen has seen when it is at a step. -/
theorem provHistory (ts : List ProvTick) : ProvHistory x ts (screen x ts) := by
  apply foldl_history
  · exact ⟨by decide, trivial, nofun⟩
  · intro ts t ih
    -- a restart was asked for before, or in this tick
    have harmed : (tick x (screen x ts) t).shouldRestart = true →
        Happened (tick x) .init [SawFatal x] (ts ++ [t]) := fun h => by
      rcases next_shouldRestart x (screen x ts) t h with hold | hfatal
      · exact (ih.armed hold).append [t]
      · exact Happened.snoc (show Happened (tick x) .init [] ts from trivial) hfatal
    rcases next_currentStep x (screen x ts) t with hsame | hadv
    · have hstep : (tick x (screen x ts) t).currentStep = (screen x ts).currentStep := hsame
      refine ⟨?_, ?_, harmed⟩
      · exact Nat.le_trans (Nat.le_of_eq hstep) ih.bound
      · show Happened _ _ (milestones x (tick x (screen x ts) t).currentStep) _
        rw [hstep]
        exact ih.seen.append [t]
    · have hstep : (tick x (screen x ts) t).currentStep = (screen x ts).currentStep + 1 := hadv.step
      have hlast := hadv.notLast
      -- the last step is not left
      have hbound : (screen x ts).currentStep ≤ 4 := ih.bound
      refine ⟨?_, ?_, harmed⟩
      · show (tick x (screen x ts) t).currentStep ≤ 4
        omega
      · show Happened _ _ (milestones x (tick x (screen x ts) t).currentStep) _
        rw [hstep]
        exact happened_milestones x ih.seen hbound hadv

/-- One more tick. -/
theorem screen_snoc (ts : List ProvTick) (t : ProvTick) :
    screen x (ts ++ [t]) = tick x (screen x ts) t := by
  simp [screen]

/-- An armed restart stays armed, and the step stays where it is. -/
theorem screen_append_of_shouldRestart {ts : List ProvTick}
    (h : (screen x ts).shouldRestart = true) (ts' : List ProvTick) :
    screen x (ts ++ ts') = screen x ts := by
  induction ts' using List.reverseRecOn with
  | nil => rw [List.append_nil]
  | append_singleton ts' t ih =>
    -- an armed restart leaves nothing else to do
    rw [← List.append_assoc, screen_snoc, ih, tick, next_of_shouldRestart x _ t h]

/-- Over every sequence of calls, with any statuses and any clock: the step grows by at most one a
    call, not at all in a call that sees an error or once a restart is armed; step 4 is reached
    only after calls that saw the three statuses in their order; and the device is restarted only
    after one of the two fatal errors was seen. -/
theorem provTip_follows_protocol (ts : List ProvTick) :
    (∀ t, (screen x ts).currentStep ≤ (screen x (ts ++ [t])).currentStep ∧
      (screen x (ts ++ [t])).currentStep ≤ (screen x ts).currentStep + 1) ∧
    (∀ t s, Saw x s (screen x ts) t → IsError s →
      (screen x (ts ++ [t])).currentStep = (screen x ts).currentStep) ∧
    ((screen x ts).shouldRestart = true →
      ∀ ts', (screen x (ts ++ ts')).currentStep = (screen x ts).currentStep) ∧
    ((screen x ts).currentStep = 4 →
      Happened (tick x) .init
        [SawReached x .activated, SawReached x .wifiConnected, SawReached x .bleConnected] ts) ∧
    (∀ t, .softReboot ∈ ((screen x ts).next x t).2 →
      Happened (tick x) .init [SawFatal x] ts) := by
  have hhist := provHistory x ts
  refine ⟨fun t => ?_, fun t s hsaw herr => ?_, fun h ts' => ?_, fun h => ?_, fun t h => ?_⟩
  · rw [screen_snoc]
    rcases next_currentStep x (screen x ts) t with hsame | hadv
    · have hstep : (tick x (screen x ts) t).currentStep = (screen x ts).currentStep := hsame
      omega
    · have hstep : (tick x (screen x ts) t).currentStep = (screen x ts).currentStep + 1 := hadv.step
      omega
  · rw [screen_snoc]
    rcases next_currentStep x (screen x ts) t with hsame | hadv
    · exact hsame
    · exact absurd herr (hadv.clean s hsaw)
  · rw [screen_append_of_shouldRestart x h]
  · have hseen := hhist.seen
    rwa [h] at hseen
  · exact hhist.armed (next_softReboot x _ t h)

end

/-- The last step is reached if nothing goes wrong. -/
example :
    (screen ⟨fun _ => "text", fun s _ => s⟩
      [⟨0, .init, .init, true, true, true⟩, ⟨1, .bleConnected, .bleConnected, true, true, true⟩,
        ⟨2, .bleConnected, .wifiConnected, true, true, true⟩,
        ⟨3, .activated, .activated, true, true, true⟩]).currentStep = 4 := by decide

end Ivy.Spec
