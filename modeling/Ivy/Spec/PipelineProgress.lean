import Ivy.Spec.PipelineInvariant
import Mathlib.Algebra.Ring.Nat

/-!
# The pipeline does not deadlock

The draw task waits for nobody but the controlling thread, which never waits while it
holds `m_draw_mutex`. The decode task waits for the draw task (a full draw queue) and
for the controlling thread, and the controlling thread waits for both. So a thread that
can go on is found by looking at the draw task first, then at the decode task, then at
the controlling thread. A `stop()` call moreover comes to an end: `work` bounds the
steps that all threads together can make while it is in progress.
-/

namespace Ivy.Spec

open Ivy.Native Ivy.Lts Ivy.Mutex

variable {s s' : Pipeline}

/-! ## Threads that can go on -/

/-- A step of thread `t` is enabled. -/
def Enabled (s : Pipeline) (t : Thread) : Prop :=
  ∃ a : Act, a.thread = t ∧ (s.step a).isSome = true

/-- The draw task can go on unless it waits for a block or for its mutex. -/
theorem drw_enabled (hfault : s.fault = false) (hserv : drwServing s.drw = true)
    (hthere : s.drw ≠ .absent) (hreceive : s.drw = .receive → s.drawQueue ≠ [])
    (hgot : ∀ m, s.drw = .got m → s.drawMutex = none) : Enabled s .drw := by
  refine ⟨.drw, rfl, ?_⟩
  cases hpc : s.drw with
  -- the only places at which the task may wait are its queue and its mutex
  | absent => exact absurd hpc hthere
  | receive =>
    cases hq : s.drawQueue with
    | nil => exact absurd hq (hreceive hpc)
    | cons m q => simp [Pipeline.step, hfault, drwStep, hpc, hq]
  | got m => simp [Pipeline.step, hfault, drwStep, hpc, hgot m hpc]
  | locked m => cases m <;> simp [Pipeline.step, hfault, drwStep, hpc]
  | done => rw [hpc] at hserv; exact nomatch hserv
  | _ => simp [Pipeline.step, hfault, drwStep, hpc]

/-- The decode task can go on unless it waits for a frame, for its mutex or for room in
    the draw queue. -/
theorem dec_enabled (hfault : s.fault = false) (hserv : decServing s.dec = true)
    (hthere : s.dec ≠ .absent) (hreceive : s.dec = .receive → s.decodeQueue ≠ [])
    (hgot : ∀ m, s.dec = .got m → s.decodeMutex = none)
    (hsend : ∀ f n b, s.dec = .sending f n b → s.drawQueue.length < numberOfDrawBuffer) :
    Enabled s .dec := by
  cases hpc : s.dec with
  -- besides its queue and its mutex the task may wait for room in the other queue
  | absent => exact absurd hpc hthere
  | ready => exact ⟨.dec (.start true), rfl, by simp [Pipeline.step, hfault, decStep, hpc]⟩
  | receive =>
    cases hq : s.decodeQueue with
    | nil => exact absurd hq (hreceive hpc)
    | cons m q => exact ⟨.dec .go, rfl, by simp [Pipeline.step, hfault, decStep, hpc, hq]⟩
  | got m => exact ⟨.dec .go, rfl, by simp [Pipeline.step, hfault, decStep, hpc, hgot m hpc]⟩
  | locked m =>
    refine ⟨.dec .go, rfl, ?_⟩
    cases m with
    | none => simp [Pipeline.step, hfault, decStep, hpc]
    | some f => cases hj : s.jpegDec <;> simp [Pipeline.step, hfault, decStep, hpc, hj]
  | decoding f n =>
    cases n with
    | zero => exact ⟨.dec .go, rfl, by simp [Pipeline.step, hfault, decStep, hpc]⟩
    | succ n =>
      exact ⟨.dec (.block true true), rfl, by simp [Pipeline.step, hfault, decStep, hpc]⟩
  | sending f n b =>
    exact ⟨.dec .go, rfl, by simp [Pipeline.step, hfault, decStep, hpc, hsend f n b hpc]⟩
  | done => rw [hpc] at hserv; exact nomatch hserv
  | _ => exact ⟨.dec .go, rfl, by simp [Pipeline.step, hfault, decStep, hpc]⟩

/-- Inside a call the controlling thread can go on unless it waits for a mutex or for
    room in the decode queue. -/
theorem ctl_enabled (hfault : s.fault = false) (hserv : ctlServing s.ctl = true)
    (hsend : ∀ f, s.ctl = .sending f → s.decodeQueue.length < numberOfDecodeBuffer)
    (hlockDecode : ∀ ex, s.ctl = .stopLockDecode ex → s.decodeMutex = none)
    (hlockDraw : ∀ ex, s.ctl = .stopLockDraw ex → s.drawMutex = none) : Enabled s .ctl := by
  cases hpc : s.ctl with
  | beginDecode | beginDraw =>
    exact ⟨.ctl (.create true), rfl, by simp [Pipeline.step, hfault, ctlStep, hpc]⟩
  | idle => exact ⟨.ctl .stop, rfl, by simp [Pipeline.step, hfault, ctlStep, hpc]⟩
  -- a frame may always be skipped
  | holding f => exact ⟨.ctl .skip, rfl, by simp [Pipeline.step, hfault, ctlStep, hpc]⟩
  | sending f =>
    exact ⟨.ctl .go, rfl, by simp [Pipeline.step, hfault, ctlStep, hpc, hsend f hpc]⟩
  | stopLockDecode ex =>
    exact ⟨.ctl .go, rfl, by simp [Pipeline.step, hfault, ctlStep, hpc, hlockDecode ex hpc]⟩
  | stopLockDraw ex =>
    exact ⟨.ctl .go, rfl, by simp [Pipeline.step, hfault, ctlStep, hpc, hlockDraw ex hpc]⟩
  | stopDrainDecode ex =>
    exact ⟨.ctl .go, rfl, by
      cases hq : s.decodeQueue <;> simp [Pipeline.step, hfault, ctlStep, hpc, hq]⟩
  | stopDrainDraw ex =>
    exact ⟨.ctl .go, rfl, by
      cases hq : s.drawQueue <;> simp [Pipeline.step, hfault, ctlStep, hpc, hq]⟩
  | stopWait ex =>
    -- the wait is over, or it times out
    cases hbits : s.drawFinish && s.decodeFinish with
    | true => exact ⟨.ctl .go, rfl, by simp [Pipeline.step, hfault, ctlStep, hpc, hbits]⟩
    | false => exact ⟨.ctl .timeout, rfl, by simp [Pipeline.step, hfault, ctlStep, hpc, hbits]⟩
  | exitSendDecode | exitWaitDecode | exitSendDraw | exitWaitDraw | delete | destroyed =>
    rw [hpc] at hserv; exact nomatch hserv
  | _ => exact ⟨.ctl .go, rfl, by simp [Pipeline.step, hfault, ctlStep, hpc]⟩

/-! ## Progress -/

/-- The decode task has a frame it has not finished. -/
def decBusy : DecPc → Bool
  | .got _ | .locked _ | .decoding _ _ | .sending _ _ _ | .free _ => true
  | _ => false

/-- The draw task has a block it has not finished. -/
def drwBusy : DrwPc → Bool
  | .got _ | .locked _ | .draw _ | .free _ => true
  | _ => false

/-- The player has a frame, or is in a `decode_frame` or `stop()` call. -/
def ctlBusy : CtlPc → Bool
  | .beginDecode | .beginDraw | .idle | .stopped _ => false
  | _ => true

/-- A frame or block is queued or held, or a call is in progress. -/
def Busy (s : Pipeline) : Prop :=
  s.decodeQueue ≠ [] ∨ s.drawQueue ≠ [] ∨ decBusy s.dec = true ∨ drwBusy s.drw = true ∨
    ctlBusy s.ctl = true

/-- The controlling thread waits for nobody while it holds `m_draw_mutex`. -/
theorem ctl_enabled_of_holdsDraw (hfault : s.fault = false) (hserv : ctlServing s.ctl = true)
    (h : holdsDraw s.ctl = true) : Enabled s .ctl := by
  apply ctl_enabled hfault hserv
  · intro f hpc; rw [hpc] at h; exact nomatch h
  · intro ex hpc; rw [hpc] at h; exact nomatch h
  · intro ex hpc; rw [hpc] at h; exact nomatch h

/-- A draw task with something to do can go on, or the controlling thread can. -/
theorem progress_drw (hfault : s.fault = false) (hown : Owned s) (hserv : Serving s)
    (hthere : s.drw ≠ .absent) (hbusy : s.drw = .receive → s.drawQueue ≠ []) :
    Enabled s .drw ∨ (holdsDraw s.ctl = true ∧ Enabled s .ctl) := by
  cases hctl : holdsDraw s.ctl with
  | true => exact .inr ⟨rfl, ctl_enabled_of_holdsDraw hfault hserv.ctl hctl⟩
  | false =>
    left
    apply drw_enabled hfault hserv.drw hthere hbusy
    intro m hpc
    have hdraw := hown.draw
    rw [hctl, hpc] at hdraw
    exact hdraw.eq_none

/-- With the draw task at rest, a decode task with something to do can go on, or the
    controlling thread can. -/
theorem progress_dec (hfault : s.fault = false) (hown : Owned s) (hserv : Serving s)
    (hthere : s.dec ≠ .absent) (hdrw : s.drw = .receive) (hempty : s.drawQueue = [])
    (hbusy : s.dec = .receive → s.decodeQueue ≠ []) :
    Enabled s .dec ∨ (holdsDecode s.ctl = true ∧ Enabled s .ctl) := by
  cases hctl : holdsDecode s.ctl with
  | true =>
    refine .inr ⟨rfl, ?_⟩
    apply ctl_enabled hfault hserv.ctl
    · intro f hpc; rw [hpc] at hctl; exact nomatch hctl
    · intro ex hpc; rw [hpc] at hctl; exact nomatch hctl
    · -- the draw task is at its receive, so it does not hold the second mutex
      intro ex hpc
      have hdraw := hown.draw
      rw [hpc, hdrw] at hdraw
      exact hdraw.eq_none
  | false =>
    left
    apply dec_enabled hfault hserv.dec hthere hbusy
    · intro m hpc
      -- the decode task is not at a place where it holds the mutex
      have hdecode := hown.decode
      rw [hctl, hpc] at hdecode
      exact hdecode.eq_none
    · intro f n b _
      rw [hempty]; decide

/-- While nothing else is going on, a call of the controlling thread can go on. -/
theorem progress_ctl (hfault : s.fault = false) (hown : Owned s) (hserv : Serving s)
    (hdrw : s.drw = .receive) (hdec : s.dec = .receive) (hempty : s.decodeQueue = []) :
    Enabled s .ctl := by
  apply ctl_enabled hfault hserv.ctl
  · intro f _
    rw [hempty]; decide
  · intro ex hpc
    have hdecode := hown.decode
    rw [hpc, hdec] at hdecode
    exact hdecode.eq_none
  · intro ex hpc
    have hdraw := hown.draw
    rw [hpc, hdrw] at hdraw
    exact hdraw.eq_none

/-- A busy pipeline has a thread that can go on without a new call. -/
theorem enabled_of_busy (hfault : s.fault = false) (hown : Owned s) (hserv : Serving s)
    (hbusy : Busy s) : ∃ t, Enabled s t ∧ (s.ctl = .idle → t ≠ .ctl) := by
  by_cases hnew : s.ctl = .beginDecode ∨ s.ctl = .beginDraw
  · -- inside the constructor
    refine ⟨.ctl, ?_, fun hidle => ?_⟩
    · rcases hnew with hpc | hpc <;>
        exact ⟨.ctl (.create true), rfl, by simp [Pipeline.step, hfault, ctlStep, hpc]⟩
    · rw [hidle] at hnew; simp at hnew
  · simp only [not_or] at hnew
    have hdrw := hserv.hasDrw hnew.1 hnew.2
    have hdec := hserv.hasDec hnew.1
    by_cases hdrwRest : s.drw = .receive ∧ s.drawQueue = []
    · by_cases hdecRest : s.dec = .receive ∧ s.decodeQueue = []
      · -- both tasks are at rest, so it is a call that is in progress
        refine ⟨.ctl, progress_ctl hfault hown hserv hdrwRest.1 hdecRest.1 hdecRest.2,
          fun hidle => ?_⟩
        unfold Busy at hbusy
        rw [hidle, hdrwRest.1, hdrwRest.2, hdecRest.1, hdecRest.2] at hbusy
        simp [decBusy, drwBusy, ctlBusy] at hbusy
      · rcases progress_dec hfault hown hserv hdec hdrwRest.1 hdrwRest.2
          (fun h hq => hdecRest ⟨h, hq⟩) with henabled | ⟨hctl, henabled⟩
        · exact ⟨.dec, henabled, fun _ => nofun⟩
        · exact ⟨.ctl, henabled, fun hidle => by rw [hidle] at hctl; exact nomatch hctl⟩
    · rcases progress_drw hfault hown hserv hdrw
        (fun h hq => hdrwRest ⟨h, hq⟩) with henabled | ⟨hctl, henabled⟩
      · exact ⟨.drw, henabled, fun _ => nofun⟩
      · exact ⟨.ctl, henabled, fun hidle => by rw [hidle] at hctl; exact nomatch hctl⟩

/-- In every run with both tasks created and no exit signal, a pipeline with something
    queued or held, or with a call in progress, can make a step: a step of a task or of
    the call that is in progress, not a new call. -/
theorem pipeline_progress {acts : List Act} (hrun : Run Pipeline.step Service .init acts s)
    (hfault : s.fault = false) (hbusy : Busy s) :
    ∃ t, Enabled s t ∧ (s.ctl = .idle → t ≠ .ctl) :=
  enabled_of_busy hfault (run_owned hrun) (run_serving hrun) hbusy

/-- A frame of six blocks is decoded while the draw task does not run, and `stop()` is called when
    the draw queue is full. -/
def fillDrawQueue : List Act :=
  [.ctl (.read (some 6)), .ctl .decode, .ctl .go, .dec .go, .dec .go, .dec .go] ++
    (List.replicate 5 [.dec (.block true true), .dec .go]).flatten ++
    [.dec (.block true true), .ctl .stop]

/-- The decode task waits for room in the draw queue and holds the mutex that `stop()` waits for;
    the draw task can go on. -/
theorem pipeline_progress_full :
    ∃ s, exec Pipeline.step Service .init (startUp ++ fillDrawQueue) = some s ∧
      s.ctl = .stopLockDecode false ∧ s.dec = .sending ⟨0, 6⟩ 0 ⟨11, 12⟩ ∧
      s.drawQueue.length = numberOfDrawBuffer ∧
      ∃ t, Enabled s t ∧ (s.ctl = .idle → t ≠ .ctl) := by
  have hexec : exec Pipeline.step Service .init (startUp ++ fillDrawQueue) = some
      { Pipeline.init with
        ctl := .stopLockDecode false, dec := .sending ⟨0, 6⟩ 0 ⟨11, 12⟩, drw := .receive
        drawQueue := [some ⟨1, 2⟩, some ⟨3, 4⟩, some ⟨5, 6⟩, some ⟨7, 8⟩, some ⟨9, 10⟩]
        decodeMutex := some .dec, decodeStopped := false, drawStopped := false, jpegDec := true
        next := 13 } := by decide +kernel
  exact ⟨_, hexec, rfl, rfl, rfl,
    pipeline_progress (Run.of_exec hexec) rfl (by simp [Busy, ctlBusy])⟩

/-! ## A `stop()` call comes to an end -/

/-- The controlling thread is in `stop()`. -/
def stopping : CtlPc → Bool
  | .stopLockDecode _ | .stopLockDraw _ | .stopDrainDecode _ | .stopFreeDecode _ _
  | .stopDrainDraw _ | .stopFreeDraw _ _ | .stopWait _ | .stopUnlockDraw _ _
  | .stopUnlockDecode _ _ => true
  | _ => false

/-- A control flow that is stopping is busy. -/
theorem ctlBusy_of_stopping {pc : CtlPc} (h : stopping pc = true) : ctlBusy pc = true := by
  cases pc <;> first | rfl | exact nomatch h

/-- A bound on the steps an element of the decode queue still takes. -/
def messageWork : Option Frame → Nat
  | none => 7
  | some f => 9 * f.blocks + 7

def decWork : DecPc → Nat
  | .absent | .receive | .done => 0
  | .ready | .unlock | .quitRead => 1
  | .finish | .quitBits => 2
  | .free _ | .quitQueue => 3
  | .quitUnlock => 4
  | .decoding _ n => 9 * n + 4
  | .sending _ n _ => 9 * n + 12
  | .locked m => messageWork m - 2
  | .got m => messageWork m - 1

def drwWork : DrwPc → Nat
  | .absent | .receive | .done => 0
  | .ready | .unlock | .quitRead => 1
  | .finish | .quitBits => 2
  | .free _ | .quitQueue => 3
  | .draw _ | .quitUnlock => 4
  | .locked _ => 5
  | .got _ => 6

def ctlWork : CtlPc → Nat
  | .stopLockDecode _ => 10
  | .stopLockDraw _ => 9
  | .stopFreeDecode _ _ => 8
  | .stopDrainDecode _ => 7
  | .stopFreeDraw _ _ => 6
  | .stopDrainDraw _ => 5
  | .stopWait _ => 4
  | .stopUnlockDraw _ _ => 3
  | .stopUnlockDecode _ _ => 2
  | _ => 0

/-- A bound on the steps that can be made while a `stop()` call is in progress. -/
def work (s : Pipeline) : Nat :=
  ctlWork s.ctl + decWork s.dec + drwWork s.drw + (s.decodeQueue.map messageWork).sum +
    7 * s.drawQueue.length + (if s.fault then 0 else 1)

/-- The draw task reduces the work, -/
theorem DrwStep.work_lt (h : DrwStep s s') : work s' < work s := by
  cases h with
  | receive m q hpc hq =>
    simp only [work, hpc, hq, drwWork, List.length_cons]; omega
  | quitQueue hpc =>
    simp only [work, hpc, drwWork, List.length_nil]; omega
  | _ =>
    simp only [work, ‹s.drw = _›, drwWork]; omega

/-- Decoding a block takes more than the draw task needs for it. -/
theorem DecStep.work_lt {a : DecAct} (h : DecStep s a s') (hfault : s.fault = false) :
    work s' < work s := by
  cases h with
  | noRecord f n pixels hpc | noJpegDec f hpc hnone =>
    simp only [work, hfault, Bool.false_eq_true, if_false, if_true]; omega
  | receive m q hpc hq =>
    simp only [work, hpc, hq, decWork, List.map_cons, List.sum_cons]
    cases m <;> simp only [messageWork] <;> omega
  | lock m hpc hfree =>
    simp only [work, hpc, decWork]
    cases m <;> simp only [messageWork] <;> omega
  | send f n b hpc hroom =>
    simp only [work, hpc, decWork, List.length_append, List.length_cons, List.length_nil]; omega
  | quitQueue hpc =>
    simp only [work, hpc, decWork, List.map_nil, List.sum_nil]; omega
  | _ =>
    simp only [work, ‹s.dec = _›, decWork, messageWork]; omega

/-- and the control flow, while it is stopping. -/
theorem CtlStep.work_lt {c : Choice} (h : CtlStep s c s') (hstop : stopping s.ctl = true) :
    work s' < work s := by
  cases h with
  | drainDecode ex m q hpc hq =>
    simp only [work, hpc, hq, ctlWork, List.map_cons, List.sum_cons]
    cases m <;> simp only [messageWork] <;> omega
  | drainDraw ex m q hpc hq =>
    simp only [work, hpc, hq, ctlWork, List.length_cons]; omega
  | unlockDecode ex ret hpc =>
    cases ex <;> simp only [work, hpc, ctlWork, if_true, Bool.false_eq_true, if_false] <;> omega
  | lockDecode ex hpc _ | lockDraw ex hpc _ | drainedDecode ex hpc _ | freeDecode ex m hpc
  | drainedDraw ex hpc _ | freeDraw ex m hpc | wait ex hpc _ | waitTimeout ex hpc _
  | unlockDraw ex ret hpc =>
    simp only [work, hpc, ctlWork]; omega
  | _ =>
    -- no other step is made inside `stop()`
    rw [‹s.ctl = _›] at hstop
    exact nomatch hstop

/-- So every step while stopping does. -/
theorem step_work_lt {a : Act} (hstop : stopping s.ctl = true) (h : s.step a = some s') :
    work s' < work s := by
  obtain ⟨hfault, ⟨c, -, hstep⟩ | ⟨d, -, hstep⟩ | ⟨-, hstep⟩⟩ := step_cases h
  · exact hstep.work_lt hstop
  · exact hstep.work_lt hfault
  · exact hstep.work_lt

end Ivy.Spec
