import Ivy.Spec.PipelineInvariant

/-!
# Destroying the codec

The destructor knows the tasks by their `stopped` bits only. The constructor presets
them, a task clears its own in its first step and sets it again before its last one, in
which `xEventGroupSetBits` reads the event group once more. So the bits say which task has
started and not set its bit (`Signalled`), not which one exists. `Orderly` keeps the
destructor from running before a created task has started, the waits of `exit()` from
timing out, and the event group from being deleted in front of the last read of a task; in
orderly runs no task is left when the event group is gone.
-/

namespace Ivy.Spec

open Ivy.Native Ivy.Lts

variable {s s' : Pipeline}

/-! ## What the bits say -/

/-- The decode task exists and has not finished. -/
def decAlive : DecPc → Bool
  | .absent | .done => false
  | _ => true

/-- The draw task exists and has not finished. -/
def drwAlive : DrwPc → Bool
  | .absent | .done => false
  | _ => true

/-- The decode task has run and has not set its `stopped` bit. -/
def decStarted : DecPc → Bool
  | .absent | .ready | .quitRead | .done => false
  | _ => true

/-- The draw task has run and has not set its `stopped` bit. -/
def drwStarted : DrwPc → Bool
  | .absent | .ready | .quitRead | .done => false
  | _ => true

/-- Only before its first step and before its last one the bit does not tell that a task exists. -/
theorem decAlive_eq_decStarted {pc : DecPc} (hready : pc ≠ .ready) (hread : pc ≠ .quitRead) :
    decAlive pc = decStarted pc := by
  cases pc with
  | ready => exact absurd rfl hready
  | quitRead => exact absurd rfl hread
  | _ => rfl

/-- The same for the bit of the draw task. -/
theorem drwAlive_eq_drwStarted {pc : DrwPc} (hready : pc ≠ .ready) (hread : pc ≠ .quitRead) :
    drwAlive pc = drwStarted pc := by
  cases pc with
  | ready => exact absurd rfl hready
  | quitRead => exact absurd rfl hread
  | _ => rfl

/-- A `stopped` bit is clear exactly while its task has started and not set it. -/
structure Signalled (s : Pipeline) : Prop where
  decode : s.decodeStopped = !decStarted s.dec
  draw : s.drawStopped = !drwStarted s.drw

/-- No task has started in the beginning. -/
theorem signalled_init : Signalled .init := ⟨rfl, rfl⟩

/-- The control flow keeps the signals, -/
theorem CtlStep.signalled {c : Choice} (h : CtlStep s c s') (hown : Owned s)
    (hs : Signalled s) : Signalled s' := by
  obtain ⟨hdec, hdrw⟩ := hs
  cases h with
  | beginDecode ok hpc =>
    -- the task is created; its bit stays preset
    rw [hown.noDec hpc] at hdec
    exact ⟨by cases ok <;> exact hdec, hdrw⟩
  | beginDraw ok hpc =>
    rw [hown.noDrw' hpc] at hdrw
    exact ⟨hdec, by cases ok <;> exact hdrw⟩
  | _ => exact ⟨hdec, hdrw⟩

/-- the decode task keeps them, -/
theorem DecStep.signalled {a : DecAct} (h : DecStep s a s') (hs : Signalled s) :
    Signalled s' := by
  obtain ⟨hdec, hdrw⟩ := hs
  cases h with
  -- the first step clears the bit, and the step before the last read sets it
  | start ok hpc => exact ⟨rfl, hdrw⟩
  | quitBits hpc => exact ⟨rfl, hdrw⟩
  -- without a record or a decoder the task stays where it is
  | noRecord f n pixels hpc | noJpegDec f hpc hnone => exact ⟨hdec, hdrw⟩
  | _ =>
    rw [‹s.dec = _›] at hdec
    exact ⟨hdec, hdrw⟩

/-- and the draw task. -/
theorem DrwStep.signalled (h : DrwStep s s') (hs : Signalled s) : Signalled s' := by
  obtain ⟨hdec, hdrw⟩ := hs
  cases h with
  | start hpc => exact ⟨hdec, rfl⟩
  | quitBits hpc => exact ⟨hdec, rfl⟩
  | _ =>
    rw [‹s.drw = _›] at hdrw
    exact ⟨hdec, hdrw⟩

/-- `running()` is true exactly while one of the tasks has started and not set its bit. -/
theorem Signalled.running_iff (h : Signalled s) :
    s.running = true ↔ decStarted s.dec = true ∨ drwStarted s.drw = true := by
  unfold Pipeline.running
  rw [h.decode, h.draw]
  cases decStarted s.dec <;> cases drwStarted s.drw <;> simp

/-! ## Orderly runs -/

/-- The codec is not destroyed while a created task has yet to run, `exit()` waits for each
    task until it has stopped, and the event group is not deleted while a task that has set its
    bit has yet to read it there. -/
def Orderly (s : Pipeline) : Act → Prop
  | .ctl .destroy => s.dec ≠ .ready ∧ s.drw ≠ .ready
  | .ctl .timeout => s.ctl ≠ .exitWaitDecode ∧ s.ctl ≠ .exitWaitDraw
  | .ctl .go => s.ctl = .delete → s.dec ≠ .quitRead ∧ s.drw ≠ .quitRead
  | _ => True

instance (s : Pipeline) (a : Act) : Decidable (Orderly s a) := by
  cases a with
  | ctl a => cases a <;> unfold Orderly <;> infer_instance
  | _ => exact isTrue trivial

/-- The controlling thread is in the destructor. -/
def destroying : CtlPc → Bool
  | .stopLockDecode ex | .stopLockDraw ex | .stopDrainDecode ex | .stopFreeDecode ex _
  | .stopDrainDraw ex | .stopFreeDraw ex _ | .stopWait ex | .stopUnlockDraw ex _
  | .stopUnlockDecode ex _ => ex
  | .exitSendDecode | .exitWaitDecode | .exitSendDraw | .exitWaitDraw | .delete
  | .destroyed => true
  | _ => false

/-- `exit()` has seen the decode task stopped, or there was nothing to exit. -/
def pastDecode : CtlPc → Bool
  | .exitSendDraw | .exitWaitDraw | .delete | .destroyed => true
  | _ => false

/-- The destructor is at `vEventGroupDelete` or behind it. -/
def deleting : CtlPc → Bool
  | .delete | .destroyed => true
  | _ => false

/-- Behind the wait for the decode task the pipeline is being destroyed. -/
theorem destroying_of_pastDecode {pc : CtlPc} (h : pastDecode pc = true) :
    destroying pc = true := by
  cases pc <;> first | rfl | exact nomatch h

/-- The event group is deleted behind that wait. -/
theorem pastDecode_of_deleting {pc : CtlPc} (h : deleting pc = true) : pastDecode pc = true := by
  cases pc <;> first | rfl | exact nomatch h

/-- How far the destructor has come, and which task has no more than its last read to make, or
    nothing. -/
structure Leaving (s : Pipeline) : Prop where
  noReady : destroying s.ctl = true → s.dec ≠ .ready ∧ s.drw ≠ .ready
  dec : pastDecode s.ctl = true → decStarted s.dec = false
  drw : deleting s.ctl = true → drwStarted s.drw = false
  gone : s.ctl = .destroyed → decAlive s.dec = false ∧ drwAlive s.drw = false

/-- Nothing is being destroyed in the beginning. -/
theorem leaving_init : Leaving .init := ⟨nofun, nofun, nofun, nofun⟩

/-- The controlling thread goes past a task only when its bit is set. -/
theorem CtlStep.leaving {c : Choice} (h : CtlStep s c s') (hok : Orderly s (.ctl c))
    (hsig : Signalled s) (hs : Leaving s) : Leaving s' := by
  obtain ⟨hready, hdec, hdrw, hgone⟩ := hs
  cases h with
  | beginDecode ok hpc | beginDraw ok hpc => exact ⟨nofun, nofun, nofun, nofun⟩
  | readNone hpc => exact ⟨hready, hdec, hdrw, hgone⟩
  | destroy hpc =>
    cases hrun : s.running with
    | true => exact ⟨fun _ => hok, nofun, nofun, nofun⟩
    | false =>
      -- both bits are set and both tasks have run, or do not exist
      have hnone : ¬ (decStarted s.dec = true ∨ drwStarted s.drw = true) := by
        rw [← hsig.running_iff, hrun]; nofun
      simp only [not_or, Bool.not_eq_true] at hnone
      exact ⟨fun _ => hok, fun _ => hnone.1, fun _ => hnone.2, nofun⟩
  -- the waits of `exit()` do not time out in an orderly run
  | waitDecodeTimeout hpc hbit => exact absurd hpc hok.1
  | waitDrawTimeout hpc hbit => exact absurd hpc hok.2
  -- the bit that ends a wait is the one of the task
  | waitDecode hpc hbit =>
    rw [hpc] at hready
    have hstopped := hsig.decode
    rw [hbit] at hstopped
    exact ⟨fun _ => hready rfl, fun _ => by simpa using hstopped.symm, nofun, nofun⟩
  | waitDraw hpc hbit =>
    rw [hpc] at hready hdec
    have hstopped := hsig.draw
    rw [hbit] at hstopped
    exact ⟨fun _ => hready rfl, fun _ => hdec rfl, fun _ => by simpa using hstopped.symm, nofun⟩
  -- the end of `stop()`: on to `exit()`, or back to the caller
  | unlockDecode ex ret hpc =>
    rw [hpc] at hready
    cases ex with
    | true => exact ⟨fun _ => hready rfl, nofun, nofun, nofun⟩
    | false => exact ⟨nofun, nofun, nofun, nofun⟩
  | delete hpc =>
    -- the bits are set, and the tasks that have set them have read them
    obtain ⟨hdecRead, hdrwRead⟩ := hok hpc
    rw [hpc] at hready hdec hdrw
    obtain ⟨hdecReady, hdrwReady⟩ := hready rfl
    refine ⟨hready, hdec, hdrw, fun _ => ⟨?_, ?_⟩⟩
    · rw [decAlive_eq_decStarted hdecReady hdecRead]
      exact hdec rfl
    · rw [drwAlive_eq_drwStarted hdrwReady hdrwRead]
      exact hdrw rfl
  | _ =>
    -- the same stage of the destructor as before
    rw [‹s.ctl = _›] at hready hdec hdrw
    exact ⟨hready, hdec, hdrw, nofun⟩

/-- A step of the decode task starts from a task that exists. -/
theorem DecStep.alive {a : DecAct} (h : DecStep s a s') : decAlive s.dec = true := by
  cases h <;> rw [‹s.dec = _›] <;> rfl

/-- Only a draw task that is alive makes steps. -/
theorem DrwStep.alive (h : DrwStep s s') : drwAlive s.drw = true := by
  cases h <;> rw [‹s.drw = _›] <;> rfl

/-- A task that has made a step has run, and the other two threads are where they were. -/
theorem DecStep.frame {a : DecAct} (h : DecStep s a s') :
    s'.dec ≠ .ready ∧ s'.drw = s.drw ∧ s'.ctl = s.ctl := by
  cases h with
  | noRecord f n pixels hpc | noJpegDec f hpc hnone =>
    refine ⟨?_, rfl, rfl⟩
    show s.dec ≠ .ready
    rw [hpc]; nofun
  | _ => exact ⟨nofun, rfl, rfl⟩

/-- The draw task makes its own steps only. -/
theorem DrwStep.frame (h : DrwStep s s') : s'.drw ≠ .ready ∧ s'.dec = s.dec ∧ s'.ctl = s.ctl := by
  cases h <;> exact ⟨nofun, rfl, rfl⟩

/-- Once it has set its bit, the decode task only makes its last read. -/
theorem DecStep.started {a : DecAct} (h : DecStep s a s') (hready : s.dec ≠ .ready)
    (hset : decStarted s.dec = false) : decStarted s'.dec = false := by
  cases h with
  -- no other step is left to a task with its bit set
  | start ok hpc => exact absurd hpc hready
  | quitRead hpc => rfl
  | _ =>
    rw [‹s.dec = _›] at hset
    exact nomatch hset

/-- Nor does the draw task make another step then. -/
theorem DrwStep.started (h : DrwStep s s') (hready : s.drw ≠ .ready)
    (hset : drwStarted s.drw = false) : drwStarted s'.drw = false := by
  cases h with
  | start hpc => exact absurd hpc hready
  | quitRead hpc => rfl
  | _ =>
    rw [‹s.drw = _›] at hset
    exact nomatch hset

/-- A step of the decode task keeps what the destructor has come to, -/
theorem DecStep.leaving {a : DecAct} (h : DecStep s a s') (hs : Leaving s) : Leaving s' := by
  obtain ⟨hready, hdec, hdrw, hgone⟩ := hs
  obtain ⟨hne, hdrw', hctl⟩ := h.frame
  rw [← hctl, ← hdrw'] at hready
  rw [← hctl] at hdec hgone
  rw [← hctl, ← hdrw'] at hdrw
  refine ⟨fun hpc => ⟨hne, (hready hpc).2⟩, fun hpc => ?_, hdrw, fun hpc => ?_⟩
  · exact h.started (hready (destroying_of_pastDecode hpc)).1 (hdec hpc)
  · -- behind the deletion the task has no step
    have halive := h.alive
    rw [(hgone hpc).1] at halive
    exact nomatch halive

/-- and so does one of the draw task. -/
theorem DrwStep.leaving (h : DrwStep s s') (hs : Leaving s) : Leaving s' := by
  obtain ⟨hready, hdec, hdrw, hgone⟩ := hs
  obtain ⟨hne, hdec', hctl⟩ := h.frame
  rw [← hctl, ← hdec'] at hready
  rw [← hctl, ← hdec'] at hdec
  rw [← hctl] at hdrw hgone
  refine ⟨fun hpc => ⟨(hready hpc).1, hne⟩, hdec, fun hpc => ?_, fun hpc => ?_⟩
  · exact h.started (hready (destroying_of_pastDecode (pastDecode_of_deleting hpc))).2 (hdrw hpc)
  · have halive := h.alive
    rw [(hgone hpc).2] at halive
    exact nomatch halive

/-- Every step keeps the signals. -/
theorem step_signalled {a : Act} (hown : Owned s) (hs : Signalled s)
    (h : s.step a = some s') : Signalled s' := by
  obtain ⟨-, ⟨c, -, hstep⟩ | ⟨d, -, hstep⟩ | ⟨-, hstep⟩⟩ := step_cases h
  · exact hstep.signalled hown hs
  · exact hstep.signalled hs
  · exact hstep.signalled hs

/-- Every step in order lets the tasks leave first. -/
theorem step_leaving {a : Act} (hok : Orderly s a) (hsig : Signalled s) (hs : Leaving s)
    (h : s.step a = some s') : Leaving s' := by
  obtain ⟨-, ⟨c, rfl, hstep⟩ | ⟨d, rfl, hstep⟩ | ⟨rfl, hstep⟩⟩ := step_cases h
  · exact hstep.leaving hok hsig hs
  · exact hstep.leaving hs
  · exact hstep.leaving hs

/-- In any run the signals tell which tasks have started. -/
theorem run_signalled {ok : Pipeline → Act → Prop} {acts : List Act}
    (h : Run Pipeline.step ok .init acts s) : Signalled s := by
  suffices Owned s ∧ Signalled s from this.2
  -- a task that is created was absent before, which `Owned` tells
  apply h.invariant (I := fun s => Owned s ∧ Signalled s) _ ⟨owned_init, signalled_init⟩
  intro s a s' ⟨hown, hs⟩ _ hstep
  exact ⟨step_owned hown hstep, step_signalled hown hs hstep⟩

/-- In an orderly run the tasks have left when the event group is deleted. -/
theorem run_leaving {acts : List Act} (h : Run Pipeline.step Orderly .init acts s) :
    Leaving s := by
  suffices Owned s ∧ Signalled s ∧ Leaving s from this.2.2
  apply h.invariant (I := fun s => Owned s ∧ Signalled s ∧ Leaving s) _
    ⟨owned_init, signalled_init, leaving_init⟩
  intro s a s' ⟨hown, hsig, hs⟩ hok hstep
  exact ⟨step_owned hown hstep, step_signalled hown hsig hstep, step_leaving hok hsig hs hstep⟩

/-! ## After the deletion -/

/-- The event group is deleted, and no task is left. -/
structure Alone (s : Pipeline) : Prop where
  ctl : s.ctl = .destroyed
  dec : decAlive s.dec = false
  drw : drwAlive s.drw = false

/-- With the codec destroyed and no task left there are no more steps. -/
theorem Alone.step_eq_none (hs : Alone s) (a : Act) : s.step a = none := by
  obtain ⟨hctl, hdec, hdrw⟩ := hs
  rw [Option.eq_none_iff_forall_ne_some]
  intro s' h
  obtain ⟨-, ⟨c, rfl, hstep⟩ | ⟨d, rfl, hstep⟩ | ⟨rfl, hstep⟩⟩ := step_cases h
  · -- nothing is left to be done for the control flow, and no task is alive
    have hdeleting : deleting s.ctl = true := by rw [hctl]; rfl
    have hbehind : s.ctl ≠ .delete := by rw [hctl]; nofun
    clear hctl
    cases hstep with
    | delete hpc => exact absurd hpc hbehind
    | _ => rw [‹s.ctl = _›] at hdeleting; exact nomatch hdeleting
  · rw [hstep.alive] at hdec; exact nomatch hdec
  · rw [hstep.alive] at hdrw; exact nomatch hdrw

/-- In an orderly run, once the event group is deleted both tasks are gone and no thread ever makes
    a step again; at `vEventGroupDelete` each of them has at most its last read to make. And outside
    the time between the creation of a task and its first step, and that between the setting of its
    bit and its last read, `running()` is true exactly while one of the tasks exists and has not
    finished. -/
theorem teardown_safe {acts : List Act} (hrun : Run Pipeline.step Orderly .init acts s) :
    (s.ctl = .destroyed →
      decAlive s.dec = false ∧ drwAlive s.drw = false ∧ ∀ a, s.step a = none) ∧
    (s.ctl = .delete → (decAlive s.dec = true → s.dec = .quitRead) ∧
      (drwAlive s.drw = true → s.drw = .quitRead)) ∧
    (s.dec ≠ .ready → s.dec ≠ .quitRead → s.drw ≠ .ready → s.drw ≠ .quitRead →
      (s.running = true ↔ decAlive s.dec = true ∨ drwAlive s.drw = true)) := by
  obtain ⟨hready, hdec, hdrw, hgone⟩ := run_leaving hrun
  refine ⟨fun hpc => ?_, fun hpc => ?_, fun hdecReady hdecRead hdrwReady hdrwRead => ?_⟩
  · -- when all is deleted no task is left
    obtain ⟨hdecGone, hdrwGone⟩ := hgone hpc
    exact ⟨hdecGone, hdrwGone, Alone.step_eq_none ⟨hpc, hdecGone, hdrwGone⟩⟩
  · rw [hpc] at hready hdec hdrw
    obtain ⟨hdecReady, hdrwReady⟩ := hready rfl
    constructor
    · intro halive
      -- alive without having started: only the last read is left
      by_contra hread
      rw [decAlive_eq_decStarted hdecReady hread, hdec rfl] at halive
      exact nomatch halive
    · intro halive
      by_contra hread
      rw [drwAlive_eq_drwStarted hdrwReady hread, hdrw rfl] at halive
      exact nomatch halive
  · rw [decAlive_eq_decStarted hdecReady hdecRead, drwAlive_eq_drwStarted hdrwReady hdrwRead]
    exact (run_signalled hrun).running_iff

/-- Both tasks have started; the destructor's `stop()` times out for want of a first
    frame, and each task takes its exit signal and sets its bit. -/
def destroyStarted : List Act :=
  [.ctl .destroy, .ctl .go, .ctl .go, .ctl .go, .ctl .go, .ctl .timeout, .ctl .go, .ctl .go,
    .ctl .go, .dec .go, .dec .go, .dec .go, .dec .go, .dec .go, .dec .go, .ctl .go,
    .ctl .go, .drw, .drw, .drw, .drw, .drw, .drw, .ctl .go]

/-- Both tasks read the event group for the last time before it is deleted. -/
theorem teardown_safe_started :
    ∃ s, exec Pipeline.step Orderly .init
        (startUp ++ destroyStarted ++ [.drw, .dec .go, .ctl .go]) = some s ∧
      s.ctl = .destroyed ∧ decAlive s.dec = false ∧ drwAlive s.drw = false := by
  have hexec : exec Pipeline.step Orderly .init
      (startUp ++ destroyStarted ++ [.drw, .dec .go, .ctl .go]) = some
      { Pipeline.init with ctl := .destroyed, dec := .done, drw := .done, jpegDec := true } := by
    decide +kernel
  obtain ⟨hdec, hdrw, -⟩ := (teardown_safe (Run.of_exec hexec)).1 rfl
  exact ⟨_, hexec, rfl, hdec, hdrw⟩

/-- The codec is destroyed before the tasks have run: `running()` is false and the event
    group is deleted with both tasks to come. With the tasks started, a wait that times out
    leaves both behind. And with both bits seen set, the event group is deleted while the tasks
    have still to read it. In each case a task goes on. -/
theorem teardown_unsafe :
    (∃ s, exec Pipeline.step (fun _ _ => True) .init
        [.ctl (.create true), .ctl (.create true), .ctl .destroy, .ctl .go] = some s ∧
      s.ctl = .destroyed ∧ s.running = false ∧ s.dec = .ready ∧ s.drw = .ready ∧
      (s.step .drw).isSome) ∧
    (∃ s, exec Pipeline.step (fun _ _ => True) .init (startUp ++
        [.ctl .destroy, .ctl .go, .ctl .go, .ctl .go, .ctl .go, .ctl .timeout, .ctl .go,
          .ctl .go, .ctl .go, .ctl .timeout, .ctl .go]) = some s ∧
      s.ctl = .destroyed ∧ s.dec = .receive ∧ s.drw = .receive ∧ (s.step (.dec .go)).isSome) ∧
    ∃ s, exec Pipeline.step (fun _ _ => True) .init (startUp ++ destroyStarted ++ [.ctl .go]) =
        some s ∧
      s.ctl = .destroyed ∧ s.dec = .quitRead ∧ s.drw = .quitRead ∧ (s.step .drw).isSome := by
  refine ⟨?_, ?_, ?_⟩
  · exact ⟨{ Pipeline.init with ctl := .destroyed, dec := .ready, drw := .ready },
      by decide +kernel, rfl, rfl, rfl, rfl, rfl⟩
  · exact ⟨{ Pipeline.init with
      ctl := .destroyed, dec := .receive, drw := .receive, decodeStopped := false
      drawStopped := false, jpegDec := true, decodeQueue := [none] }, by decide +kernel,
      rfl, rfl, rfl, rfl⟩
  · exact ⟨{ Pipeline.init with
      ctl := .destroyed, dec := .quitRead, drw := .quitRead, jpegDec := true }, by decide +kernel,
      rfl, rfl, rfl, rfl⟩

end Ivy.Spec
