import Ivy.ForStd.Mutex
import Ivy.ForStd.Transition
import Ivy.Spec.PipelineStep

/-!
# Invariants of the pipeline

`Owned` ties the owner of each mutex to the program counters. `Serving` says that both
tasks are there as soon as the constructor is done and that no exit signal is on its
way; it holds in every run in which both tasks are created and the codec is not
destroyed (`Service`).
-/

namespace Ivy.Spec

open Ivy.Native Ivy.Lts Ivy.Mutex

variable {s s' : Pipeline}

/-! ## The owners of the mutexes -/

/-- The controlling thread holds `m_decode_mutex`. -/
def holdsDecode : CtlPc → Bool
  | .stopLockDraw _ | .stopDrainDecode _ | .stopFreeDecode _ _ | .stopDrainDraw _
  | .stopFreeDraw _ _ | .stopWait _ | .stopUnlockDraw _ _ | .stopUnlockDecode _ _ => true
  | _ => false

/-- The controlling thread holds `m_draw_mutex`. -/
def holdsDraw : CtlPc → Bool
  | .stopDrainDecode _ | .stopFreeDecode _ _ | .stopDrainDraw _ | .stopFreeDraw _ _
  | .stopWait _ | .stopUnlockDraw _ _ => true
  | _ => false

/-- The decode task holds `m_decode_mutex`. -/
def decHolds : DecPc → Bool
  | .locked _ | .decoding _ _ | .sending _ _ _ | .free _ | .finish | .unlock
  | .quitUnlock => true
  | _ => false

/-- The draw task holds `m_draw_mutex`. -/
def drwHolds : DrwPc → Bool
  | .locked _ | .draw _ | .free _ | .finish | .unlock | .quitUnlock => true
  | _ => false

/-- Each mutex is owned by the thread inside its scope; a task that the constructor has
    not come to does not exist. -/
structure Owned (s : Pipeline) : Prop where
  decode : OwnedBy .ctl .dec (holdsDecode s.ctl) (decHolds s.dec) s.decodeMutex
  draw : OwnedBy .ctl .drw (holdsDraw s.ctl) (drwHolds s.drw) s.drawMutex
  noDec : s.ctl = .beginDecode → s.dec = .absent
  noDrw : s.ctl = .beginDecode → s.drw = .absent
  noDrw' : s.ctl = .beginDraw → s.drw = .absent

/-- In the constructor nobody holds a mutex, and there are no tasks. -/
theorem owned_init : Owned .init :=
  ⟨⟨rfl, nofun⟩, ⟨rfl, nofun⟩, fun _ => rfl, fun _ => rfl, nofun⟩

/-- The controlling thread takes and releases the mutexes only at its own scopes. -/
theorem CtlStep.owned {c : Choice} (h : CtlStep s c s') (hs : Owned s) : Owned s' := by
  obtain ⟨hdec, hdrw, hnoDec, hnoDrw, hnoDrw'⟩ := hs
  cases h with
  | beginDecode ok hpc =>
    -- the task did not exist before, so that it cannot hold its mutex
    rw [hpc, hnoDec hpc] at hdec
    rw [hpc] at hdrw
    exact ⟨by cases ok <;> exact hdec, hdrw, nofun, nofun, fun _ => hnoDrw hpc⟩
  | beginDraw ok hpc =>
    rw [hpc] at hdec
    rw [hpc, hnoDrw' hpc] at hdrw
    exact ⟨hdec, by cases ok <;> exact hdrw, nofun, nofun, nofun⟩
  | readNone hpc => exact ⟨hdec, hdrw, hnoDec, hnoDrw, hnoDrw'⟩
  | destroy hpc =>
    rw [hpc] at hdec hdrw
    -- `running()` decides whether `exit()` is called; neither way touches a mutex
    split <;> exact ⟨hdec, hdrw, nofun, nofun, nofun⟩
  | lockDecode ex hpc hfree =>
    rw [hpc] at hdrw
    rw [hfree] at hdec
    exact ⟨hdec.acquireLeft, hdrw, nofun, nofun, nofun⟩
  | lockDraw ex hpc hfree =>
    rw [hpc] at hdec
    rw [hfree] at hdrw
    exact ⟨hdec, hdrw.acquireLeft, nofun, nofun, nofun⟩
  | unlockDraw ex ret hpc =>
    rw [hpc] at hdec hdrw
    exact ⟨hdec, hdrw.releaseLeft, nofun, nofun, nofun⟩
  | unlockDecode ex ret hpc =>
    rw [hpc] at hdec hdrw
    cases ex <;> exact ⟨hdec.releaseLeft, hdrw, nofun, nofun, nofun⟩
  | _ =>
    -- no other step locks or unlocks
    rw [‹s.ctl = _›] at hdec hdrw
    exact ⟨hdec, hdrw, nofun, nofun, nofun⟩

/-- The decode task takes and releases `m_decode_mutex` only. -/
theorem DecStep.owned {a : DecAct} (h : DecStep s a s') (hs : Owned s) : Owned s' := by
  obtain ⟨hdec, hdrw, hnoDec, hnoDrw, hnoDrw'⟩ := hs
  cases h with
  | lock m hpc hfree =>
    rw [hfree] at hdec
    refine ⟨hdec.acquireRight, hdrw, fun h => ?_, hnoDrw, hnoDrw'⟩
    rw [hnoDec h] at hpc; exact nomatch hpc
  | unlock hpc | quitUnlock hpc =>
    rw [hpc] at hdec
    refine ⟨hdec.releaseRight, hdrw, fun h => ?_, hnoDrw, hnoDrw'⟩
    rw [hnoDec h] at hpc; exact nomatch hpc
  | noRecord f n pixels hpc | noJpegDec f hpc hfault =>
    exact ⟨hdec, hdrw, hnoDec, hnoDrw, hnoDrw'⟩
  | _ =>
    have hpc := ‹s.dec = _›
    rw [hpc] at hdec
    refine ⟨hdec, hdrw, fun h => ?_, hnoDrw, hnoDrw'⟩
    rw [hnoDec h] at hpc; exact nomatch hpc

/-- The draw task takes and releases `m_draw_mutex` only. -/
theorem DrwStep.owned (h : DrwStep s s') (hs : Owned s) : Owned s' := by
  obtain ⟨hdec, hdrw, hnoDec, hnoDrw, hnoDrw'⟩ := hs
  -- a task that makes a step exists, so that the constructor is done with it
  have hthere : ∀ {pc}, s.drw = pc → pc ≠ .absent →
      s.ctl ≠ .beginDecode ∧ s.ctl ≠ .beginDraw := by
    intro pc hpc hne
    exact ⟨fun h => hne (hpc ▸ hnoDrw h), fun h => hne (hpc ▸ hnoDrw' h)⟩
  cases h with
  | lock m hpc hfree =>
    obtain ⟨h₁, h₂⟩ := hthere hpc nofun
    rw [hfree] at hdrw
    exact ⟨hdec, hdrw.acquireRight, hnoDec, fun h => absurd h h₁, fun h => absurd h h₂⟩
  | unlock hpc | quitUnlock hpc =>
    obtain ⟨h₁, h₂⟩ := hthere hpc nofun
    rw [hpc] at hdrw
    exact ⟨hdec, hdrw.releaseRight, hnoDec, fun h => absurd h h₁, fun h => absurd h h₂⟩
  | _ =>
    have hpc := ‹s.drw = _›
    obtain ⟨h₁, h₂⟩ := hthere hpc nofun
    rw [hpc] at hdrw
    exact ⟨hdec, hdrw, hnoDec, fun h => absurd h h₁, fun h => absurd h h₂⟩

/-- Every step keeps the owners. -/
theorem step_owned {a : Act} (hs : Owned s) (h : s.step a = some s') : Owned s' := by
  obtain ⟨-, ⟨c, -, hstep⟩ | ⟨d, -, hstep⟩ | ⟨-, hstep⟩⟩ := step_cases h
  · exact hstep.owned hs
  · exact hstep.owned hs
  · exact hstep.owned hs

/-! ## Service -/

/-- Both tasks are created and the codec is not destroyed. -/
def Service (_ : Pipeline) : Act → Prop
  | .ctl .destroy => False
  | .ctl (.create ok) => ok = true
  | _ => True

instance (s : Pipeline) (a : Act) : Decidable (Service s a) := by
  unfold Service
  split <;> infer_instance

/-- The controlling thread is not in `exit()`. -/
def ctlServing : CtlPc → Bool
  | .stopLockDecode ex | .stopLockDraw ex | .stopDrainDecode ex | .stopFreeDecode ex _
  | .stopDrainDraw ex | .stopFreeDraw ex _ | .stopWait ex | .stopUnlockDraw ex _
  | .stopUnlockDecode ex _ => !ex
  | .exitSendDecode | .exitWaitDecode | .exitSendDraw | .exitWaitDraw | .delete
  | .destroyed => false
  | _ => true

/-- The decode task has not seen the exit signal. -/
def decServing : DecPc → Bool
  | .got m | .locked m => m.isSome
  | .quitUnlock | .quitQueue | .quitBits | .quitRead | .done => false
  | _ => true

/-- The draw task has not seen the exit signal. -/
def drwServing : DrwPc → Bool
  | .got m | .locked m => m.isSome
  | .quitUnlock | .quitQueue | .quitBits | .quitRead | .done => false
  | _ => true

/-- No exit signal is on its way, and both tasks exist once the constructor is done. -/
structure Serving (s : Pipeline) : Prop where
  ctl : ctlServing s.ctl = true
  dec : decServing s.dec = true
  drw : drwServing s.drw = true
  decodeQueue : none ∉ s.decodeQueue
  drawQueue : none ∉ s.drawQueue
  hasDec : s.ctl ≠ .beginDecode → s.dec ≠ .absent
  hasDrw : s.ctl ≠ .beginDecode → s.ctl ≠ .beginDraw → s.drw ≠ .absent

/-- Nothing has been signalled in the constructor. -/
theorem serving_init : Serving .init :=
  ⟨rfl, rfl, rfl, List.not_mem_nil, List.not_mem_nil, fun h => absurd rfl h,
    fun h => absurd rfl h⟩

/-- As long as the codec is not destroyed, the controlling thread sends no exit signal. -/
theorem CtlStep.serving {c : Choice} (h : CtlStep s c s') (hok : Service s (.ctl c))
    (hs : Serving s) : Serving s' := by
  obtain ⟨hctl, hdec, hdrw, hdq, hwq, hhasDec, hhasDrw⟩ := hs
  cases h with
  | beginDecode ok hpc =>
    cases hok
    exact ⟨rfl, rfl, hdrw, hdq, hwq, nofun, fun _ h => absurd rfl h⟩
  | beginDraw ok hpc =>
    cases hok
    exact ⟨rfl, hdec, rfl, hdq, hwq, fun _ => hhasDec (by rw [hpc]; nofun), nofun⟩
  | readNone hpc => exact ⟨hctl, hdec, hdrw, hdq, hwq, hhasDec, hhasDrw⟩
  | destroy hpc => exact hok.elim
  | send f hpc hroom =>
    refine ⟨rfl, hdec, hdrw, ?_, hwq, fun _ => hhasDec (by rw [hpc]; nofun),
      fun _ _ => hhasDrw (by rw [hpc]; nofun) (by rw [hpc]; nofun)⟩
    -- a frame is put into the queue, not an exit signal
    simpa using hdq
  | drainDecode ex m q hpc hq =>
    rw [hpc] at hctl
    refine ⟨hctl, hdec, hdrw, fun h => hdq (hq ▸ List.mem_cons_of_mem _ h), hwq,
      fun _ => hhasDec (by rw [hpc]; nofun),
      fun _ _ => hhasDrw (by rw [hpc]; nofun) (by rw [hpc]; nofun)⟩
  | drainDraw ex m q hpc hq =>
    rw [hpc] at hctl
    refine ⟨hctl, hdec, hdrw, hdq, fun h => hwq (hq ▸ List.mem_cons_of_mem _ h),
      fun _ => hhasDec (by rw [hpc]; nofun),
      fun _ _ => hhasDrw (by rw [hpc]; nofun) (by rw [hpc]; nofun)⟩
  | unlockDecode ex ret hpc =>
    rw [hpc] at hctl
    cases ex with
    | true => exact nomatch hctl
    | false =>
      exact ⟨rfl, hdec, hdrw, hdq, hwq, fun _ => hhasDec (by rw [hpc]; nofun),
        fun _ _ => hhasDrw (by rw [hpc]; nofun) (by rw [hpc]; nofun)⟩
  -- the program counters of `exit()` and behind it are not reached
  | sendDecodeTimeout hpc _ | waitDecodeTimeout hpc _ | sendDrawTimeout hpc _
  | waitDrawTimeout hpc _ | sendDecode hpc _ | waitDecode hpc _ | sendDraw hpc _
  | waitDraw hpc _ | delete hpc =>
    rw [hpc] at hctl; exact nomatch hctl
  | _ =>
    -- the thread stays in the same call, outside `exit()`
    have hpc := ‹s.ctl = _›
    have hctl' := hctl
    rw [hpc] at hctl'
    exact ⟨hctl', hdec, hdrw, hdq, hwq, fun _ => hhasDec (by rw [hpc]; nofun),
      fun _ _ => hhasDrw (by rw [hpc]; nofun) (by rw [hpc]; nofun)⟩

/-- The decode task only passes on blocks, and never gets an exit signal. -/
theorem DecStep.serving {a : DecAct} (h : DecStep s a s') (hs : Serving s) : Serving s' := by
  obtain ⟨hctl, hdec, hdrw, hdq, hwq, hhasDec, hhasDrw⟩ := hs
  cases h with
  | receive m q hpc hq =>
    refine ⟨hctl, ?_, hdrw, fun h => hdq (hq ▸ List.mem_cons_of_mem _ h), hwq, fun _ => nofun,
      hhasDrw⟩
    cases m with
    -- an exit signal would have been in the queue
    | none => exact absurd (hq ▸ List.mem_cons_self) hdq
    | some f => rfl
  | send f n b hpc hroom =>
    refine ⟨hctl, rfl, hdrw, hdq, ?_, fun _ => nofun, hhasDrw⟩
    simpa using hwq
  | signal hpc | quitUnlock hpc | quitQueue hpc | quitBits hpc | quitRead hpc =>
    rw [hpc] at hdec; exact nomatch hdec
  | noRecord f n pixels hpc | noJpegDec f hpc hnone =>
    exact ⟨hctl, hdec, hdrw, hdq, hwq, hhasDec, hhasDrw⟩
  | _ =>
    rw [‹s.dec = _›] at hdec
    exact ⟨hctl, hdec, hdrw, hdq, hwq, fun _ => nofun, hhasDrw⟩

/-- The draw task never gets an exit signal. -/
theorem DrwStep.serving (h : DrwStep s s') (hs : Serving s) : Serving s' := by
  obtain ⟨hctl, hdec, hdrw, hdq, hwq, hhasDec, hhasDrw⟩ := hs
  cases h with
  | receive m q hpc hq =>
    refine ⟨hctl, hdec, ?_, hdq, fun h => hwq (hq ▸ List.mem_cons_of_mem _ h), hhasDec,
      fun _ _ => nofun⟩
    cases m with
    -- an exit signal would have been in the queue
    | none => exact absurd (hq ▸ List.mem_cons_self) hwq
    | some b => rfl
  | signal hpc | quitUnlock hpc | quitQueue hpc | quitBits hpc | quitRead hpc =>
    rw [hpc] at hdrw; exact nomatch hdrw
  | _ =>
    rw [‹s.drw = _›] at hdrw
    exact ⟨hctl, hdec, hdrw, hdq, hwq, hhasDec, fun _ _ => nofun⟩

/-- Every step of a service keeps it. -/
theorem step_serving {a : Act} (hs : Serving s) (hok : Service s a) (h : s.step a = some s') :
    Serving s' := by
  obtain ⟨-, ⟨c, rfl, hstep⟩ | ⟨d, rfl, hstep⟩ | ⟨rfl, hstep⟩⟩ := step_cases h
  · exact hstep.serving hok hs
  · exact hstep.serving hs
  · exact hstep.serving hs

/-- The owners are right in every state that is reached. -/
theorem run_owned {ok : Pipeline → Act → Prop} {acts : List Act}
    (h : Run Pipeline.step ok .init acts s) : Owned s :=
  h.invariant (fun _ _ _ hs _ hstep => step_owned hs hstep) owned_init

/-- As long as the codec is not destroyed both tasks serve. -/
theorem run_serving {acts : List Act} (h : Run Pipeline.step Service .init acts s) : Serving s :=
  h.invariant (fun _ _ _ hs hok hstep => step_serving hs hok hstep) serving_init

/-! ## The first frame -/

/-- Both tasks are created and run for the first time. -/
def startUp : List Act :=
  [.ctl (.create true), .ctl (.create true), .dec (.start true), .drw]

/-- A frame of one block is read, decoded and drawn. -/
def playOne : List Act :=
  [.ctl (.read (some 1)), .ctl .decode, .ctl .go, .dec .go, .dec .go, .dec .go,
    .dec (.block true true), .dec .go, .dec .go, .dec .go, .dec .go, .dec .go,
    .drw, .drw, .drw, .drw, .drw, .drw, .drw]

end Ivy.Spec
