import Ivy.Spec.PipelineProgress

/-!
# What a `stop()` call leaves behind

`stop()` takes both mutexes, empties both queues and waits for the two
`finish_processing` bits. A task that has received an element but not yet locked its
mutex is seen by none of the three, and the bits are not set before each task has
finished its first element. `Calm` rules out both; in calm runs `stop()` returns true
with both queues empty and both tasks back at their queues.
-/

namespace Ivy.Spec

open Ivy.Native Ivy.Lts Ivy.Mutex

variable {s s' : Pipeline}

/-- The decode task is between its receive and its lock. -/
def decGot : DecPc → Bool
  | .got _ => true
  | _ => false

/-- The draw task is between its receive and its lock. -/
def drwGot : DrwPc → Bool
  | .got _ => true
  | _ => false

/-- `stop()` takes a mutex only when the task it guards is not between receive and lock,
    and the second one only when both tasks have finished an element; no task receives
    while `stop()` holds its mutex. -/
def Calm (s : Pipeline) : Act → Prop
  | .ctl .go =>
    match s.ctl with
    | .stopLockDecode _ => decGot s.dec = false
    | .stopLockDraw _ => drwGot s.drw = false ∧ s.decodeFinish = true ∧ s.drawFinish = true
    | _ => True
  | .dec .go => s.dec = .receive → s.decodeMutex ≠ some .ctl
  | .drw => s.drw = .receive → s.drawMutex ≠ some .ctl
  | _ => True

instance (s : Pipeline) (a : Act) : Decidable (Calm s a) := by
  unfold Calm
  split
  · split <;> infer_instance
  · infer_instance
  · infer_instance
  · infer_instance

/-- A step in the service of the player that is calm. -/
def CalmService (s : Pipeline) (a : Act) : Prop := Service s a ∧ Calm s a

instance (s : Pipeline) (a : Act) : Decidable (CalmService s a) :=
  inferInstanceAs (Decidable (_ ∧ _))

/-! ## The phases of `stop()` -/

/-- `stop()` has emptied the decode queue. -/
def drainedDecode : CtlPc → Bool
  | .stopDrainDraw _ | .stopFreeDraw _ _ | .stopWait _ | .stopUnlockDraw _ _
  | .stopUnlockDecode _ _ | .stopped _ => true
  | _ => false

/-- `stop()` has emptied the draw queue, too. -/
def drainedDraw : CtlPc → Bool
  | .stopWait _ | .stopUnlockDraw _ _ | .stopUnlockDecode _ _ | .stopped _ => true
  | _ => false

/-- What `stop()` is about to return. -/
def returning : CtlPc → Option Bool
  | .stopUnlockDraw _ ret | .stopUnlockDecode _ ret | .stopped ret => some ret
  | _ => none

/-- What holds in the phases of a `stop()` call of a calm run. -/
structure Quiet (s : Pipeline) : Prop where
  dec : holdsDecode s.ctl = true → decGot s.dec = false
  drw : holdsDraw s.ctl = true → drwGot s.drw = false
  finish : holdsDraw s.ctl = true → s.decodeFinish = true ∧ s.drawFinish = true
  decodeQueue : drainedDecode s.ctl = true → s.decodeQueue = []
  drawQueue : drainedDraw s.ctl = true → s.drawQueue = []
  ret : ∀ r, returning s.ctl = some r → r = true ∧ s.dec = .receive ∧ s.drw = .receive
  /-- only a task that has run can have finished something -/
  decStarted : s.decodeFinish = true → s.dec ≠ .absent ∧ s.dec ≠ .ready
  drwStarted : s.drawFinish = true → s.drw ≠ .absent ∧ s.drw ≠ .ready

/-- Nothing is going on in the beginning. -/
theorem quiet_init : Quiet .init :=
  ⟨nofun, nofun, nofun, nofun, nofun, nofun, nofun, nofun⟩

/-- The mutexes are taken in one order. -/
theorem holdsDecode_of_holdsDraw {pc : CtlPc} (h : holdsDraw pc = true) :
    holdsDecode pc = true := by
  cases pc <;> first | rfl | exact nomatch h

/-- A decode task that is outside its mutex, not between receive and lock, and has
    finished something is at its receive. -/
theorem dec_receive (hserv : decServing s.dec = true) (hout : decHolds s.dec = false)
    (hgot : decGot s.dec = false) (hstarted : s.dec ≠ .absent ∧ s.dec ≠ .ready) :
    s.dec = .receive := by
  cases hpc : s.dec with
  | receive => rfl
  | absent => exact absurd hpc hstarted.1
  | ready => exact absurd hpc hstarted.2
  | got m => rw [hpc] at hgot; exact nomatch hgot
  | quitQueue | quitBits | quitRead | done => rw [hpc] at hserv; exact nomatch hserv
  | _ => rw [hpc] at hout; exact nomatch hout

/-- A draw task that serves and holds nothing is waiting. -/
theorem drw_receive (hserv : drwServing s.drw = true) (hout : drwHolds s.drw = false)
    (hgot : drwGot s.drw = false) (hstarted : s.drw ≠ .absent ∧ s.drw ≠ .ready) :
    s.drw = .receive := by
  cases hpc : s.drw with
  | receive => rfl
  | absent => exact absurd hpc hstarted.1
  | ready => exact absurd hpc hstarted.2
  | got m => rw [hpc] at hgot; exact nomatch hgot
  | quitQueue | quitBits | quitRead | done => rw [hpc] at hserv; exact nomatch hserv
  | _ => rw [hpc] at hout; exact nomatch hout

/-- The control flow keeps the quiet, -/
theorem CtlStep.quiet {c : Choice} (h : CtlStep s c s') (hcalm : Calm s (.ctl c))
    (hown : Owned s) (hserv : Serving s) (hs : Quiet s) : Quiet s' := by
  obtain ⟨hdec, hdrw, hfin, hdq, hwq, hret, hdstart, hwstart⟩ := hs
  cases h with
  | beginDecode ok hpc =>
    -- the task did not exist, so it cannot have finished anything
    refine ⟨nofun, nofun, nofun, nofun, nofun, nofun, fun h => ?_, hwstart⟩
    exact absurd (hown.noDec hpc) (hdstart h).1
  | beginDraw ok hpc =>
    refine ⟨nofun, nofun, nofun, nofun, nofun, nofun, hdstart, fun h => ?_⟩
    exact absurd (hown.noDrw' hpc) (hwstart h).1
  | readNone hpc => exact ⟨hdec, hdrw, hfin, hdq, hwq, hret, hdstart, hwstart⟩
  | destroy hpc =>
    split <;> exact ⟨nofun, nofun, nofun, nofun, nofun, nofun, hdstart, hwstart⟩
  | lockDecode ex hpc hfree =>
    simp only [Calm, hpc] at hcalm
    exact ⟨fun _ => hcalm, nofun, nofun, nofun, nofun, nofun, hdstart, hwstart⟩
  | lockDraw ex hpc hfree =>
    simp only [Calm, hpc] at hcalm
    rw [hpc] at hdec
    exact ⟨hdec, fun _ => hcalm.1, fun _ => hcalm.2, nofun, nofun, nofun, hdstart, hwstart⟩
  | drainDecode ex m q hpc hq =>
    rw [hpc] at hdec hdrw hfin
    exact ⟨hdec, hdrw, hfin, nofun, nofun, nofun, hdstart, hwstart⟩
  | drainedDecode ex hpc hq =>
    rw [hpc] at hdec hdrw hfin
    exact ⟨hdec, hdrw, hfin, fun _ => hq, nofun, nofun, hdstart, hwstart⟩
  | drainDraw ex m q hpc hq =>
    rw [hpc] at hdec hdrw hfin hdq
    exact ⟨hdec, hdrw, hfin, hdq, nofun, nofun, hdstart, hwstart⟩
  | drainedDraw ex hpc hq =>
    rw [hpc] at hdec hdrw hfin hdq
    exact ⟨hdec, hdrw, hfin, hdq, fun _ => hq, nofun, hdstart, hwstart⟩
  | freeDecode ex m hpc =>
    rw [hpc] at hdec hdrw hfin
    exact ⟨hdec, hdrw, hfin, nofun, nofun, nofun, hdstart, hwstart⟩
  | freeDraw ex m hpc =>
    rw [hpc] at hdec hdrw hfin hdq
    exact ⟨hdec, hdrw, hfin, hdq, nofun, nofun, hdstart, hwstart⟩
  | waitTimeout ex hpc hbits =>
    -- the bits were set when the second mutex was taken, and nobody clears them
    rw [hpc] at hfin
    obtain ⟨h₁, h₂⟩ := hfin rfl
    rw [h₁, h₂] at hbits
    exact nomatch hbits
  | wait ex hpc hbits =>
    have hd := hown.decode.one (by rw [hpc]; rfl)
    have hw := hown.draw.one (by rw [hpc]; rfl)
    rw [hpc] at hdec hdrw hfin hdq hwq
    obtain ⟨h₁, h₂⟩ := hfin rfl
    refine ⟨hdec, hdrw, hfin, hdq, hwq, fun r hr => ?_, hdstart, hwstart⟩
    cases hr
    exact ⟨rfl, dec_receive hserv.dec hd (hdec rfl) (hdstart h₁),
      drw_receive hserv.drw hw (hdrw rfl) (hwstart h₂)⟩
  | unlockDraw ex ret hpc =>
    rw [hpc] at hdec hdq hwq hret
    exact ⟨hdec, nofun, nofun, hdq, hwq, hret, hdstart, hwstart⟩
  | unlockDecode ex ret hpc =>
    rw [hpc] at hdq hwq hret
    cases ex with
    | true => exact ⟨nofun, nofun, nofun, nofun, nofun, nofun, hdstart, hwstart⟩
    | false => exact ⟨nofun, nofun, nofun, hdq, hwq, hret, hdstart, hwstart⟩
  | _ => exact ⟨nofun, nofun, nofun, nofun, nofun, nofun, hdstart, hwstart⟩

/-- When `stop` returns both queues are drained. -/
theorem drained_of_returning {pc : CtlPc} {r : Bool} (h : returning pc = some r) :
    drainedDecode pc = true ∧ drainedDraw pc = true := by
  cases pc <;> first | exact ⟨rfl, rfl⟩ | exact nomatch h

/-- With both queues drained and the mutexes given back, `stop` returns. -/
theorem returning_of_drained {pc : CtlPc} (h : drainedDraw pc = true)
    (hout : holdsDecode pc = false) : returning pc ≠ none := by
  cases pc with
  | stopped ret => exact nofun
  | stopWait _ | stopUnlockDraw _ _ | stopUnlockDecode _ _ => exact nomatch hout
  | _ => exact nomatch h

/-- A decode task inside its mutex is not there once `stop()` holds it. -/
theorem Owned.dec_out {pc : DecPc} (hown : Owned s) (hpc : s.dec = pc) (hin : decHolds pc = true) :
    holdsDecode s.ctl = false := by
  have hdecode := hown.decode
  rw [hpc, hin] at hdecode
  exact hdecode.left_eq_false

/-- While the draw task holds its mutex the control flow does not. -/
theorem Owned.drw_out {pc : DrwPc} (hown : Owned s) (hpc : s.drw = pc) (hin : drwHolds pc = true) :
    holdsDraw s.ctl = false := by
  have hdraw := hown.draw
  rw [hpc, hin] at hdraw
  exact hdraw.left_eq_false

/-- The control flow owns the decode mutex while it holds it, -/
theorem Owned.ctl_decode (hown : Owned s) (h : holdsDecode s.ctl = true) :
    s.decodeMutex = some .ctl := by
  have hdecode := hown.decode.owner
  rw [h] at hdecode
  exact hdecode

/-- and the draw mutex. -/
theorem Owned.ctl_draw (hown : Owned s) (h : holdsDraw s.ctl = true) :
    s.drawMutex = some .ctl := by
  have hdraw := hown.draw.owner
  rw [h] at hdraw
  exact hdraw

/-- the decode task keeps it, -/
theorem DecStep.quiet {a : DecAct} (h : DecStep s a s') (hcalm : Calm s (.dec a))
    (hown : Owned s) (hs : Quiet s) : Quiet s' := by
  obtain ⟨hdec, hdrw, hfin, hdq, hwq, hret, hdstart, hwstart⟩ := hs
  -- once `stop()` returns, the task is at its receive
  have hnot : ∀ {pc}, s.dec = pc → pc ≠ .receive → returning s.ctl = none := by
    intro pc hpc hne
    cases hr : returning s.ctl with
    | none => rfl
    | some r => exact absurd (hpc ▸ (hret r hr).2.1) hne
  have hnoRet : ∀ {pc r}, s.dec = pc → pc ≠ .receive → returning s.ctl = some r → False := by
    intro pc r hpc hne hr
    rw [hnot hpc hne] at hr; exact nomatch hr
  -- a task that clears its bit holds its mutex
  have hclear : ∀ {pc}, s.dec = pc → decHolds pc = true → holdsDraw s.ctl = true → False := by
    intro pc hpc hin hctl
    have := hown.dec_out hpc hin
    rw [holdsDecode_of_holdsDraw hctl] at this
    exact nomatch this
  cases h with
  | receive m q hpc hq =>
    refine ⟨fun hctl => absurd (hown.ctl_decode hctl) (hcalm hpc), hdrw, hfin, fun hctl => ?_, hwq,
      fun r hr => ?_, fun _ => ⟨nofun, nofun⟩, hwstart⟩
    · rw [hdq hctl] at hq; exact nomatch hq
    · rw [hdq (drained_of_returning hr).1] at hq; exact nomatch hq
  | signal hpc | openRAM f hpc hj =>
    exact ⟨fun _ => rfl, hdrw, fun hctl => (hclear hpc rfl hctl).elim, hdq, hwq,
      fun r hr => (hnoRet hpc nofun hr).elim, nofun, hwstart⟩
  | noJpegDec f hpc hj =>
    exact ⟨hdec, hdrw, fun hctl => (hclear hpc rfl hctl).elim, hdq, hwq, hret, nofun, hwstart⟩
  | noRecord f n pixels hpc =>
    exact ⟨hdec, hdrw, hfin, hdq, hwq, hret, hdstart, hwstart⟩
  | finish hpc =>
    exact ⟨fun _ => rfl, hdrw, fun hctl => ⟨rfl, (hfin hctl).2⟩, hdq, hwq,
      fun r hr => (hnoRet hpc nofun hr).elim, fun _ => ⟨nofun, nofun⟩, hwstart⟩
  | quitQueue hpc =>
    exact ⟨fun _ => rfl, hdrw, hfin, fun _ => rfl, hwq,
      fun r hr => (hnoRet hpc nofun hr).elim, fun _ => ⟨nofun, nofun⟩, hwstart⟩
  | send f n b hpc hroom =>
    -- nobody sends to a queue that `stop()` has emptied
    refine ⟨fun _ => rfl, hdrw, hfin, hdq, fun hctl => ?_,
      fun r hr => (hnoRet hpc nofun hr).elim, fun _ => ⟨nofun, nofun⟩, hwstart⟩
    exact absurd (hnot hpc nofun) (returning_of_drained hctl (hown.dec_out hpc rfl))
  | _ =>
    have hpc := ‹s.dec = _›
    exact ⟨fun _ => rfl, hdrw, hfin, hdq, hwq, fun r hr => (hnoRet hpc nofun hr).elim,
      fun _ => ⟨nofun, nofun⟩, hwstart⟩

/-- and the draw task. -/
theorem DrwStep.quiet (h : DrwStep s s') (hcalm : Calm s .drw) (hown : Owned s) (hs : Quiet s) :
    Quiet s' := by
  obtain ⟨hdec, hdrw, hfin, hdq, hwq, hret, hdstart, hwstart⟩ := hs
  -- while `stop` returns the draw task is waiting
  have hnoRet : ∀ {pc r}, s.drw = pc → pc ≠ .receive → returning s.ctl = some r → False := by
    intro pc r hpc hne hr
    exact hne (hpc ▸ (hret r hr).2.2)
  -- the mutex has one owner
  have hclear : ∀ {pc}, s.drw = pc → drwHolds pc = true → holdsDraw s.ctl = true → False := by
    intro pc hpc hin hctl
    rw [hown.drw_out hpc hin] at hctl; exact nomatch hctl
  cases h with
  | receive m q hpc hq =>
    refine ⟨hdec, fun hctl => absurd (hown.ctl_draw hctl) (hcalm hpc), hfin, hdq, fun hctl => ?_,
      fun r hr => ?_, hdstart, fun _ => ⟨nofun, nofun⟩⟩
    · rw [hwq hctl] at hq; exact nomatch hq
    · rw [hwq (drained_of_returning hr).2] at hq; exact nomatch hq
  | signal hpc | push b hpc =>
    exact ⟨hdec, fun _ => rfl, fun hctl => (hclear hpc rfl hctl).elim, hdq, hwq,
      fun r hr => (hnoRet hpc nofun hr).elim, hdstart, nofun⟩
  | finish hpc =>
    exact ⟨hdec, fun _ => rfl, fun hctl => ⟨(hfin hctl).1, rfl⟩, hdq, hwq,
      fun r hr => (hnoRet hpc nofun hr).elim, hdstart, fun _ => ⟨nofun, nofun⟩⟩
  | quitQueue hpc =>
    exact ⟨hdec, fun _ => rfl, hfin, hdq, fun _ => rfl,
      fun r hr => (hnoRet hpc nofun hr).elim, hdstart, fun _ => ⟨nofun, nofun⟩⟩
  | _ =>
    have hpc := ‹s.drw = _›
    exact ⟨hdec, fun _ => rfl, hfin, hdq, hwq, fun r hr => (hnoRet hpc nofun hr).elim,
      hdstart, fun _ => ⟨nofun, nofun⟩⟩

/-- In a calm run the quiet holds throughout. -/
theorem run_quiet {acts : List Act} (hrun : Run Pipeline.step CalmService .init acts s) :
    Quiet s := by
  -- the three invariants are carried along together
  suffices h : Owned s ∧ Serving s ∧ Quiet s from h.2.2
  refine hrun.invariant (I := fun s => Owned s ∧ Serving s ∧ Quiet s) ?_
    ⟨owned_init, serving_init, quiet_init⟩
  intro s a s' ⟨hown, hserv, hs⟩ ⟨hserve, hcalm⟩ hstep
  refine ⟨step_owned hown hstep, step_serving hserv hserve hstep, ?_⟩
  obtain ⟨-, ⟨c, rfl, hmove⟩ | ⟨d, rfl, hmove⟩ | ⟨rfl, hmove⟩⟩ := step_cases hstep
  · exact hmove.quiet hcalm hown hserv hs
  · exact hmove.quiet hcalm hown hs
  · exact hmove.quiet hcalm hown hs

/-- In a calm run every `stop()` call that has returned has returned true, with both
    queues empty and both tasks back at their queues, holding nothing. A call that is in
    progress can be gone on with, and the three threads together make at most `work s`
    steps before it returns. -/
theorem stop_quiesces {acts : List Act} (hrun : Run Pipeline.step CalmService .init acts s) :
    (∀ ret, s.ctl = .stopped ret → ret = true ∧ s.decodeQueue = [] ∧ s.drawQueue = [] ∧
      s.dec = .receive ∧ s.drw = .receive) ∧
    (stopping s.ctl = true → s.fault = false →
      (∃ t, Enabled s t) ∧
      ∀ acts' s', Run Pipeline.step (fun s _ => stopping s.ctl = true) s acts' s' →
        acts'.length ≤ work s) := by
  have hquiet := run_quiet hrun
  refine ⟨fun ret hpc => ?_, fun hstop hfault => ⟨?_, fun acts' s' hrun' => ?_⟩⟩
  · obtain ⟨hret, hdec, hdrw⟩ := hquiet.ret ret (by rw [hpc]; rfl)
    exact ⟨hret, hquiet.decodeQueue (by rw [hpc]; rfl), hquiet.drawQueue (by rw [hpc]; rfl),
      hdec, hdrw⟩
  · -- someone can always make a step, and the work gets less with each
    obtain ⟨t, henabled, -⟩ := enabled_of_busy hfault (run_owned hrun)
      (run_serving (hrun.mono fun _ _ hok => hok.1))
      (.inr (.inr (.inr (.inr (ctlBusy_of_stopping hstop)))))
    exact ⟨t, henabled⟩
  · have := hrun'.length_le (fun _ _ _ => step_work_lt)
    omega

/-! ## Runs on one frame -/

/-- A `stop()` call that finds both queues empty. -/
def stopCall (wait : Choice) : List Act :=
  [.ctl .stop, .ctl .go, .ctl .go, .ctl .go, .ctl .go, .ctl wait, .ctl .go, .ctl .go]

/-- A `stop()` call that finds a frame in the decode queue. -/
def stopDiscarding : List Act :=
  [.ctl .stop, .ctl .go, .ctl .go, .ctl .go, .ctl .go, .ctl .go, .ctl .go, .ctl .go, .ctl .go,
    .ctl .go]

/-- A second frame is queued when `stop()` is called: it is discarded, its token 3 released. -/
theorem stop_quiesces_discarding :
    ∃ s, exec Pipeline.step CalmService .init (startUp ++ playOne ++
        [.ctl (.read (some 0)), .ctl .decode, .ctl .go] ++ stopDiscarding) = some s ∧
      s.released = [3, 2, 1, 0] ∧ s.ctl = .stopped true ∧ s.decodeQueue = [] ∧ s.drawQueue = [] ∧
      s.dec = .receive ∧ s.drw = .receive := by
  have hexec : exec Pipeline.step CalmService .init (startUp ++ playOne ++
      [.ctl (.read (some 0)), .ctl .decode, .ctl .go] ++ stopDiscarding) = some
      { Pipeline.init with
        ctl := .stopped true, dec := .receive, drw := .receive, decodeStopped := false
        drawStopped := false, decodeFinish := true, drawFinish := true, jpegDec := true
        next := 4, released := [3, 2, 1, 0] } := by decide +kernel
  exact ⟨_, hexec, rfl, rfl, ((stop_quiesces (Run.of_exec hexec)).1 true rfl).2⟩

/-- A frame is queued, and the decode task has received it when `stop()` is called:
    `stop()` returns true while the task still holds the frame, to decode it later. And
    a `stop()` call before the first frame returns false. -/
theorem stop_not_quiescent :
    (∃ s, exec Pipeline.step Service .init (startUp ++ playOne ++
        [.ctl (.read (some 0)), .ctl .decode, .ctl .go, .dec .go] ++ stopCall .go) = some s ∧
      s.ctl = .stopped true ∧ s.dec = .got (some ⟨3, 0⟩)) ∧
    ∃ s, exec Pipeline.step Service .init (startUp ++ stopCall .timeout) = some s ∧
      s.ctl = .stopped false := by
  constructor
  · refine ⟨{ Pipeline.init with
      ctl := .stopped true, dec := .got (some ⟨3, 0⟩), drw := .receive, decodeStopped := false
      drawStopped := false, decodeFinish := true, drawFinish := true, jpegDec := true
      next := 4, released := [2, 1, 0] }, by decide +kernel, rfl, rfl⟩
  · exact ⟨{ Pipeline.init with
      ctl := .stopped false, dec := .receive, drw := .receive, decodeStopped := false
      drawStopped := false, jpegDec := true }, by decide +kernel, rfl⟩

end Ivy.Spec
