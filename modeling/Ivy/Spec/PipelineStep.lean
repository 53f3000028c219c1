import Ivy.Native.Pipeline

/-!
# The steps of the pipeline

`CtlStep`, `DecStep` and `DrwStep` list what a step of each thread can do, with its
guard and its whole effect. Every proof about the pipeline goes through them.
-/

namespace Ivy.Spec

open Ivy.Native

variable {s s' : Pipeline}

/-- The steps of the controlling thread. -/
inductive CtlStep (s : Pipeline) : Choice → Pipeline → Prop
  -- the constructor
  | beginDecode (ok : Bool) (hpc : s.ctl = .beginDecode) :
      CtlStep s (.create ok) { s with ctl := .beginDraw, dec := if ok then .ready else .absent }
  | beginDraw (ok : Bool) (hpc : s.ctl = .beginDraw) :
      CtlStep s (.create ok) { s with ctl := .idle, drw := if ok then .ready else .absent }
  -- what the player does with the codec
  | read (n : Nat) (hpc : s.ctl = .idle) :
      CtlStep s (.read (some n)) { s with ctl := .holding ⟨s.next, n⟩, next := s.next + 1 }
  | readNone (hpc : s.ctl = .idle) : CtlStep s (.read none) s
  | decode (f : Frame) (hpc : s.ctl = .holding f) :
      CtlStep s .decode { s with ctl := .sending f }
  | skip (f : Frame) (hpc : s.ctl = .holding f) :
      CtlStep s .skip { s with ctl := .idle, released := f.token :: s.released }
  | stop (hpc : s.ctl = .idle) : CtlStep s .stop { s with ctl := .stopLockDecode false }
  | destroy (hpc : s.ctl = .idle) :
      CtlStep s .destroy { s with ctl := if s.running then .stopLockDecode true else .delete }
  -- waits and sends that end without what they wait for
  | waitTimeout (ex : Bool) (hpc : s.ctl = .stopWait ex)
      (hbits : (s.drawFinish && s.decodeFinish) = false) :
      CtlStep s .timeout { s with ctl := .stopUnlockDraw ex false }
  | sendDecodeTimeout (hpc : s.ctl = .exitSendDecode)
      (hfull : ¬ s.decodeQueue.length < numberOfDecodeBuffer) :
      CtlStep s .timeout { s with ctl := .exitWaitDecode }
  | waitDecodeTimeout (hpc : s.ctl = .exitWaitDecode) (hbit : s.decodeStopped = false) :
      CtlStep s .timeout { s with ctl := .delete }
  | sendDrawTimeout (hpc : s.ctl = .exitSendDraw)
      (hfull : ¬ s.drawQueue.length < numberOfDrawBuffer) :
      CtlStep s .timeout { s with ctl := .exitWaitDraw }
  | waitDrawTimeout (hpc : s.ctl = .exitWaitDraw) (hbit : s.drawStopped = false) :
      CtlStep s .timeout { s with ctl := .delete }
  | send (f : Frame) (hpc : s.ctl = .sending f)
      (hroom : s.decodeQueue.length < numberOfDecodeBuffer) :
      CtlStep s .go { s with ctl := .idle, decodeQueue := s.decodeQueue ++ [some f] }
  -- `stop()`, for its own sake or from `exit()`
  | lockDecode (ex : Bool) (hpc : s.ctl = .stopLockDecode ex) (hfree : s.decodeMutex = none) :
      CtlStep s .go { s with ctl := .stopLockDraw ex, decodeMutex := some .ctl }
  | lockDraw (ex : Bool) (hpc : s.ctl = .stopLockDraw ex) (hfree : s.drawMutex = none) :
      CtlStep s .go { s with ctl := .stopDrainDecode ex, drawMutex := some .ctl }
  | drainDecode (ex : Bool) (m : Option Frame) (q : List (Option Frame))
      (hpc : s.ctl = .stopDrainDecode ex) (hq : s.decodeQueue = m :: q) :
      CtlStep s .go { s with ctl := .stopFreeDecode ex m, decodeQueue := q }
  | drainedDecode (ex : Bool) (hpc : s.ctl = .stopDrainDecode ex) (hq : s.decodeQueue = []) :
      CtlStep s .go { s with ctl := .stopDrainDraw ex }
  | freeDecode (ex : Bool) (m : Option Frame) (hpc : s.ctl = .stopFreeDecode ex m) :
      CtlStep s .go
        { s with ctl := .stopDrainDecode ex, released := frameTokens m ++ s.released }
  | drainDraw (ex : Bool) (m : Option Block) (q : List (Option Block))
      (hpc : s.ctl = .stopDrainDraw ex) (hq : s.drawQueue = m :: q) :
      CtlStep s .go { s with ctl := .stopFreeDraw ex m, drawQueue := q }
  | drainedDraw (ex : Bool) (hpc : s.ctl = .stopDrainDraw ex) (hq : s.drawQueue = []) :
      CtlStep s .go { s with ctl := .stopWait ex }
  | freeDraw (ex : Bool) (m : Option Block) (hpc : s.ctl = .stopFreeDraw ex m) :
      CtlStep s .go
        { s with ctl := .stopDrainDraw ex, released := blockTokens m ++ s.released }
  | wait (ex : Bool) (hpc : s.ctl = .stopWait ex)
      (hbits : (s.drawFinish && s.decodeFinish) = true) :
      CtlStep s .go { s with ctl := .stopUnlockDraw ex true }
  | unlockDraw (ex ret : Bool) (hpc : s.ctl = .stopUnlockDraw ex ret) :
      CtlStep s .go { s with ctl := .stopUnlockDecode ex ret, drawMutex := none }
  | unlockDecode (ex ret : Bool) (hpc : s.ctl = .stopUnlockDecode ex ret) :
      CtlStep s .go
        { s with ctl := if ex then .exitSendDecode else .stopped ret, decodeMutex := none }
  | resume (ret : Bool) (hpc : s.ctl = .stopped ret) : CtlStep s .go { s with ctl := .idle }
  -- the rest of `exit()`, and the destructor
  | sendDecode (hpc : s.ctl = .exitSendDecode)
      (hroom : s.decodeQueue.length < numberOfDecodeBuffer) :
      CtlStep s .go { s with ctl := .exitWaitDecode, decodeQueue := s.decodeQueue ++ [none] }
  | waitDecode (hpc : s.ctl = .exitWaitDecode) (hbit : s.decodeStopped = true) :
      CtlStep s .go { s with ctl := .exitSendDraw }
  | sendDraw (hpc : s.ctl = .exitSendDraw) (hroom : s.drawQueue.length < numberOfDrawBuffer) :
      CtlStep s .go { s with ctl := .exitWaitDraw, drawQueue := s.drawQueue ++ [none] }
  | waitDraw (hpc : s.ctl = .exitWaitDraw) (hbit : s.drawStopped = true) :
      CtlStep s .go { s with ctl := .delete }
  | delete (hpc : s.ctl = .delete) : CtlStep s .go { s with ctl := .destroyed }

/-- The controlling thread has no other steps. -/
theorem ctlStep_cases {c : Choice} (h : ctlStep s c = some s') : CtlStep s c s' := by
  unfold ctlStep at h
  cases c with
  | create ok =>
    cases hpc : s.ctl <;> simp only [hpc, reduceCtorEq, Option.some.injEq] at h
    · rw [← h]; exact .beginDecode ok hpc
    · rw [← h]; exact .beginDraw ok hpc
  | read blocks =>
    -- the player may find no frame; then nothing changes
    cases hpc : s.ctl <;> cases blocks <;> simp only [hpc, reduceCtorEq, Option.some.injEq] at h
    · rw [← h]; exact .readNone hpc
    · rw [← h]; exact .read _ hpc
  | decode =>
    cases hpc : s.ctl <;> simp only [hpc, reduceCtorEq, Option.some.injEq] at h
    rw [← h]; exact .decode _ hpc
  | skip =>
    cases hpc : s.ctl <;> simp only [hpc, reduceCtorEq, Option.some.injEq] at h
    rw [← h]; exact .skip _ hpc
  | stop =>
    cases hpc : s.ctl <;> simp only [hpc, reduceCtorEq, Option.some.injEq] at h
    rw [← h]; exact .stop hpc
  | destroy =>
    cases hpc : s.ctl <;> simp only [hpc, reduceCtorEq, Option.some.injEq] at h
    rw [← h]; exact .destroy hpc
  | timeout =>
    -- the five waits and sends with a limit: they end so only if what they wait for is missing
    dsimp only at h
    split at h
    · rename_i ex hpc
      split at h
      · exact nomatch h
      · rename_i hbits
        cases h; exact .waitTimeout ex hpc (by simpa using hbits)
    · rename_i hpc
      split at h
      · exact nomatch h
      · rename_i hfull
        cases h; exact .sendDecodeTimeout hpc hfull
    · rename_i hpc
      split at h
      · exact nomatch h
      · rename_i hbit
        cases h; exact .waitDecodeTimeout hpc (by simpa using hbit)
    · rename_i hpc
      split at h
      · exact nomatch h
      · rename_i hfull
        cases h; exact .sendDrawTimeout hpc hfull
    · rename_i hpc
      split at h
      · exact nomatch h
      · rename_i hbit
        cases h; exact .waitDrawTimeout hpc (by simpa using hbit)
    · exact nomatch h
  | go =>
    -- one bullet for each program counter that goes on by itself, in the order of `ctlStep`
    dsimp only at h
    split at h
    · rename_i f hpc
      split at h
      · cases h; exact .send f hpc ‹_›
      · exact nomatch h
    · rename_i ex hpc
      split at h
      · cases h; exact .lockDecode ex hpc ‹_›
      · exact nomatch h
    · rename_i ex hpc
      split at h
      · cases h; exact .lockDraw ex hpc ‹_›
      · exact nomatch h
    · rename_i ex hpc
      split at h
      · cases h; exact .drainedDecode ex hpc ‹_›
      · cases h; exact .drainDecode ex _ _ hpc ‹_›
    · rename_i ex m hpc
      cases h; exact .freeDecode ex m hpc
    · rename_i ex hpc
      split at h
      · cases h; exact .drainedDraw ex hpc ‹_›
      · cases h; exact .drainDraw ex _ _ hpc ‹_›
    · rename_i ex m hpc
      cases h; exact .freeDraw ex m hpc
    · rename_i ex hpc
      split at h
      · cases h; exact .wait ex hpc ‹_›
      · exact nomatch h
    · rename_i ex ret hpc
      cases h; exact .unlockDraw ex ret hpc
    · rename_i ex ret hpc
      cases h; exact .unlockDecode ex ret hpc
    · rename_i ret hpc
      cases h; exact .resume ret hpc
    · rename_i hpc
      split at h
      · cases h; exact .sendDecode hpc ‹_›
      · exact nomatch h
    · rename_i hpc
      split at h
      · cases h; exact .waitDecode hpc ‹_›
      · exact nomatch h
    · rename_i hpc
      split at h
      · cases h; exact .sendDraw hpc ‹_›
      · exact nomatch h
    · rename_i hpc
      split at h
      · cases h; exact .waitDraw hpc ‹_›
      · exact nomatch h
    · rename_i hpc
      cases h; exact .delete hpc
    · exact nomatch h

/-- The steps of the decode task. -/
inductive DecStep (s : Pipeline) : DecAct → Pipeline → Prop
  | start (ok : Bool) (hpc : s.dec = .ready) :
      DecStep s (.start ok) { s with dec := .receive, decodeStopped := false, jpegDec := ok }
  -- the draw callback, with the two allocations of a block
  | block (f : Frame) (n : Nat) (hpc : s.dec = .decoding f (n + 1)) :
      DecStep s (.block true true)
        { s with dec := .sending f n ⟨s.next, s.next + 1⟩, next := s.next + 2 }
  | noPixels (f : Frame) (n : Nat) (hpc : s.dec = .decoding f (n + 1)) :
      DecStep s (.block true false) { s with dec := .decoding f n, next := s.next + 1 }
  | noRecord (f : Frame) (n : Nat) (pixels : Bool) (hpc : s.dec = .decoding f (n + 1)) :
      DecStep s (.block false pixels)
        { s with fault := true, next := if pixels then s.next + 1 else s.next }
  -- a frame, from the queue to its release
  | receive (m : Option Frame) (q : List (Option Frame)) (hpc : s.dec = .receive)
      (hq : s.decodeQueue = m :: q) : DecStep s .go { s with dec := .got m, decodeQueue := q }
  | lock (m : Option Frame) (hpc : s.dec = .got m) (hfree : s.decodeMutex = none) :
      DecStep s .go { s with dec := .locked m, decodeMutex := some .dec }
  | signal (hpc : s.dec = .locked none) :
      DecStep s .go { s with dec := .quitUnlock, decodeFinish := false }
  | openRAM (f : Frame) (hpc : s.dec = .locked (some f)) (hdec : s.jpegDec = true) :
      DecStep s .go { s with dec := .decoding f f.blocks, decodeFinish := false }
  | noJpegDec (f : Frame) (hpc : s.dec = .locked (some f)) (hdec : s.jpegDec = false) :
      DecStep s .go { s with decodeFinish := false, fault := true }
  | decoded (f : Frame) (hpc : s.dec = .decoding f 0) : DecStep s .go { s with dec := .free f }
  | send (f : Frame) (n : Nat) (b : Block) (hpc : s.dec = .sending f n b)
      (hroom : s.drawQueue.length < numberOfDrawBuffer) :
      DecStep s .go { s with dec := .decoding f n, drawQueue := s.drawQueue ++ [some b] }
  | free (f : Frame) (hpc : s.dec = .free f) :
      DecStep s .go { s with dec := .finish, released := f.token :: s.released }
  | finish (hpc : s.dec = .finish) :
      DecStep s .go { s with dec := .unlock, decodeFinish := true }
  | unlock (hpc : s.dec = .unlock) :
      DecStep s .go { s with dec := .receive, decodeMutex := none }
  -- the signal to stop
  | quitUnlock (hpc : s.dec = .quitUnlock) :
      DecStep s .go { s with dec := .quitQueue, decodeMutex := none }
  | quitQueue (hpc : s.dec = .quitQueue) :
      DecStep s .go { s with dec := .quitBits, decodeQueue := [] }
  | quitBits (hpc : s.dec = .quitBits) :
      DecStep s .go { s with dec := .quitRead, decodeStopped := true }
  | quitRead (hpc : s.dec = .quitRead) : DecStep s .go { s with dec := .done }

/-- The decode task has no other steps. -/
theorem decStep_cases {a : DecAct} (h : decStep s a = some s') : DecStep s a s' := by
  unfold decStep at h
  cases a with
  | start ok =>
    dsimp only at h
    split at h
    · rename_i hpc
      cases h; exact .start ok hpc
    · exact nomatch h
  | block record pixels =>
    dsimp only at h
    split at h
    · rename_i f n hpc
      -- without the record the pixels make no difference to the task
      cases record <;> cases pixels <;> cases h
      · exact .noRecord f n false hpc
      · exact .noRecord f n true hpc
      · exact .noPixels f n hpc
      · exact .block f n hpc
    · exact nomatch h
  | go =>
    dsimp only at h
    split at h
    · rename_i hpc
      split at h
      · exact nomatch h
      · cases h; exact .receive _ _ hpc ‹_›
    · rename_i m hpc
      split at h
      · cases h; exact .lock m hpc ‹_›
      · exact nomatch h
    · rename_i hpc
      cases h; exact .signal hpc
    · rename_i f hpc
      split at h
      · cases h; exact .openRAM f hpc ‹_›
      · rename_i hdec
        cases h; exact .noJpegDec f hpc (by simpa using hdec)
    · rename_i f hpc
      cases h; exact .decoded f hpc
    · rename_i f n b hpc
      split at h
      · cases h; exact .send f n b hpc ‹_›
      · exact nomatch h
    · rename_i f hpc
      cases h; exact .free f hpc
    · rename_i hpc
      cases h; exact .finish hpc
    · rename_i hpc
      cases h; exact .unlock hpc
    · rename_i hpc
      cases h; exact .quitUnlock hpc
    · rename_i hpc
      cases h; exact .quitQueue hpc
    · rename_i hpc
      cases h; exact .quitBits hpc
    · rename_i hpc
      cases h; exact .quitRead hpc
    · exact nomatch h

/-- The steps of the draw task. -/
inductive DrwStep (s : Pipeline) : Pipeline → Prop
  | start (hpc : s.drw = .ready) : DrwStep s { s with drw := .receive, drawStopped := false }
  -- a block, from the queue to its release
  | receive (m : Option Block) (q : List (Option Block)) (hpc : s.drw = .receive)
      (hq : s.drawQueue = m :: q) : DrwStep s { s with drw := .got m, drawQueue := q }
  | lock (m : Option Block) (hpc : s.drw = .got m) (hfree : s.drawMutex = none) :
      DrwStep s { s with drw := .locked m, drawMutex := some .drw }
  | signal (hpc : s.drw = .locked none) :
      DrwStep s { s with drw := .quitUnlock, drawFinish := false }
  | push (b : Block) (hpc : s.drw = .locked (some b)) :
      DrwStep s { s with drw := .draw b, drawFinish := false }
  | drawn (b : Block) (hpc : s.drw = .draw b) : DrwStep s { s with drw := .free b }
  | free (b : Block) (hpc : s.drw = .free b) :
      DrwStep s { s with drw := .finish, released := blockTokens (some b) ++ s.released }
  | finish (hpc : s.drw = .finish) : DrwStep s { s with drw := .unlock, drawFinish := true }
  | unlock (hpc : s.drw = .unlock) : DrwStep s { s with drw := .receive, drawMutex := none }
  -- the signal to stop
  | quitUnlock (hpc : s.drw = .quitUnlock) :
      DrwStep s { s with drw := .quitQueue, drawMutex := none }
  | quitQueue (hpc : s.drw = .quitQueue) : DrwStep s { s with drw := .quitBits, drawQueue := [] }
  | quitBits (hpc : s.drw = .quitBits) :
      DrwStep s { s with drw := .quitRead, drawStopped := true }
  | quitRead (hpc : s.drw = .quitRead) : DrwStep s { s with drw := .done }

/-- The draw task has no other steps. -/
theorem drwStep_cases (h : drwStep s = some s') : DrwStep s s' := by
  unfold drwStep at h
  split at h
  · exact nomatch h
  · rename_i hpc
    cases h; exact .start hpc
  · rename_i hpc
    split at h
    · exact nomatch h
    · cases h; exact .receive _ _ hpc ‹_›
  · rename_i m hpc
    split at h
    · cases h; exact .lock m hpc ‹_›
    · exact nomatch h
  · rename_i hpc
    cases h; exact .signal hpc
  · rename_i b hpc
    cases h; exact .push b hpc
  · rename_i b hpc
    cases h; exact .drawn b hpc
  · rename_i b hpc
    cases h; exact .free b hpc
  · rename_i hpc
    cases h; exact .finish hpc
  · rename_i hpc
    cases h; exact .unlock hpc
  · rename_i hpc
    cases h; exact .quitUnlock hpc
  · rename_i hpc
    cases h; exact .quitQueue hpc
  · rename_i hpc
    cases h; exact .quitBits hpc
  · rename_i hpc
    cases h; exact .quitRead hpc
  · exact nomatch h

/-- A step is a step of one of the threads, and no null pointer was followed before. -/
theorem step_cases {a : Act} (h : s.step a = some s') :
    s.fault = false ∧ ((∃ c, a = .ctl c ∧ CtlStep s c s') ∨ (∃ d, a = .dec d ∧ DecStep s d s') ∨
      (a = .drw ∧ DrwStep s s')) := by
  unfold Pipeline.step at h
  split at h
  · exact nomatch h
  · rename_i hfault
    refine ⟨by simpa using hfault, ?_⟩
    cases a with
    | ctl c => exact .inl ⟨c, rfl, ctlStep_cases h⟩
    | dec d => exact .inr (.inl ⟨d, rfl, decStep_cases h⟩)
    | drw => exact .inr (.inr ⟨rfl, drwStep_cases h⟩)

end Ivy.Spec
