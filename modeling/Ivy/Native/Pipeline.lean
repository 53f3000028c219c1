import Mathlib.Data.List.Basic

/-!
# The decode and draw pipeline of the MJPEG codec

Three threads share a `MjpegCodec`: the controlling thread that constructs it, plays
frames, stops it and destroys it, the decode task and the draw task. They meet at two
queues, two mutexes and the bits of one event group. Each thread is a program counter
over its source; a step is one operation on something shared, an allocation or a
release. The actions resolve what the threads do not decide themselves: the calls that
are made, the outcomes of allocations and of `xTaskCreatePinnedToCore`, and timeouts.

Heap blocks are tokens, numbered in the order of their allocation. A null pointer that
is followed resets the device; such a state has no further steps.
-/

namespace Ivy.Native

/-- `NUMBER_OF_DECODE_BUFFER` -/
def numberOfDecodeBuffer : Nat := 3

/-- `NUMBER_OF_DRAW_BUFFER` -/
def numberOfDrawBuffer : Nat := 5

/-- A buffer returned by `read_frame`, and the number of blocks its decoding draws. -/
structure Frame where
  token : Nat
  blocks : Nat
  deriving DecidableEq, Repr

/-- A `JPEGDRAW` record and the pixel block it points to. -/
structure Block where
  record : Nat
  pixels : Nat
  deriving DecidableEq, Repr

/-- The owner of a mutex. -/
inductive Thread
  | ctl
  | dec
  | drw
  deriving DecidableEq, Repr

/-! ## Program counters -/

/-- The controlling thread. `ex` tells a `stop()` inside `exit()` from one called by
    the player. -/
inductive CtlPc
  | beginDecode
  | beginDraw
  | idle
  /-- `read_frame` has returned a frame -/
  | holding (f : Frame)
  /-- in `decode_frame`, at its `xQueueSend` -/
  | sending (f : Frame)
  | stopLockDecode (ex : Bool)
  | stopLockDraw (ex : Bool)
  | stopDrainDecode (ex : Bool)
  | stopFreeDecode (ex : Bool) (m : Option Frame)
  | stopDrainDraw (ex : Bool)
  | stopFreeDraw (ex : Bool) (m : Option Block)
  | stopWait (ex : Bool)
  | stopUnlockDraw (ex : Bool) (ret : Bool)
  | stopUnlockDecode (ex : Bool) (ret : Bool)
  /-- `stop()` has returned to the player -/
  | stopped (ret : Bool)
  | exitSendDecode
  | exitWaitDecode
  | exitSendDraw
  | exitWaitDraw
  /-- at `vEventGroupDelete` -/
  | delete
  | destroyed
  deriving DecidableEq, Repr

/-- The decode task. A queue element `none` is the exit signal. -/
inductive DecPc
  | absent
  /-- created, not yet run -/
  | ready
  | receive
  /-- received, before `m_decode_mutex` is locked -/
  | got (m : Option Frame)
  | locked (m : Option Frame)
  /-- in `decode`, with `n` blocks to go -/
  | decoding (f : Frame) (n : Nat)
  /-- at the `xQueueSend` of a block, with `n` more to go -/
  | sending (f : Frame) (n : Nat) (b : Block)
  | free (f : Frame)
  | finish
  | unlock
  | quitUnlock
  | quitQueue
  /-- at the `xEventGroupSetBits` of the stopped bit -/
  | quitBits
  /-- the bit is set, and `xEventGroupSetBits` is behind its critical section: what it returns
      is still to be read from the event group -/
  | quitRead
  | done
  deriving DecidableEq, Repr

/-- The draw task. -/
inductive DrwPc
  | absent
  | ready
  | receive
  | got (m : Option Block)
  | locked (m : Option Block)
  | draw (b : Block)
  | free (b : Block)
  | finish
  | unlock
  | quitUnlock
  | quitQueue
  | quitBits
  | quitRead
  | done
  deriving DecidableEq, Repr

/-! ## State -/

structure Pipeline where
  ctl : CtlPc
  dec : DecPc
  drw : DrwPc
  decodeQueue : List (Option Frame)
  drawQueue : List (Option Block)
  decodeMutex : Option Thread
  drawMutex : Option Thread
  /-- `decode_task_stopped` -/
  decodeStopped : Bool
  /-- `draw_task_stopped` -/
  drawStopped : Bool
  /-- `decode_task_finish_processing` -/
  decodeFinish : Bool
  /-- `draw_task_finish_processing` -/
  drawFinish : Bool
  /-- the decode task has its `JPEGDEC` -/
  jpegDec : Bool
  /-- a null pointer was followed -/
  fault : Bool
  /-- the number of tokens allocated so far -/
  next : Nat
  released : List Nat
  deriving DecidableEq, Repr

/-- The constructor has created the event group and preset both `stopped` bits. -/
def Pipeline.init : Pipeline where
  ctl := .beginDecode
  dec := .absent
  drw := .absent
  decodeQueue := []
  drawQueue := []
  decodeMutex := none
  drawMutex := none
  decodeStopped := true
  drawStopped := true
  decodeFinish := false
  drawFinish := false
  jpegDec := false
  fault := false
  next := 0
  released := []

/-- `MjpegCodec::running` -/
def Pipeline.running (s : Pipeline) : Bool :=
  !(s.drawStopped && s.decodeStopped)

/-! ## The controlling thread -/

/-- What the controlling thread does next, where its code leaves that open. -/
inductive Choice
  /-- the outcome of creating a task -/
  | create (ok : Bool)
  /-- call `read_frame`: a frame with this many blocks, or `nullptr` -/
  | read (blocks : Option Nat)
  | decode
  | skip
  | stop
  | destroy
  /-- a timed wait times out -/
  | timeout
  | go
  deriving DecidableEq, Repr

/-- The block an element of the decode queue is freed as; the exit signal has none. -/
def frameTokens : Option Frame → List Nat
  | none => []
  | some f => [f.token]

/-- The blocks an element of the draw queue is freed as, in the order of the frees. -/
def blockTokens : Option Block → List Nat
  | none => []
  | some b => [b.pixels, b.record]

def ctlStep (s : Pipeline) : Choice → Option Pipeline
  | .create ok =>
    match s.ctl with
    -- an error is logged, and the construction goes on
    | .beginDecode => some { s with ctl := .beginDraw, dec := if ok then .ready else .absent }
    | .beginDraw => some { s with ctl := .idle, drw := if ok then .ready else .absent }
    | _ => none
  | .read blocks =>
    match s.ctl, blocks with
    -- the frame's buffer is a new block
    | .idle, some n => some { s with ctl := .holding ⟨s.next, n⟩, next := s.next + 1 }
    | .idle, none => some s
    | _, _ => none
  | .decode =>
    match s.ctl with
    | .holding f => some { s with ctl := .sending f }
    | _ => none
  | .skip =>
    match s.ctl with
    -- s.released } :: a late frame is freed by the player
    | .holding f => some { s with ctl := .idle, released := f.token :: s.released }
    | _ => none
  | .stop =>
    match s.ctl with
    | .idle => some { s with ctl := .stopLockDecode false }
    | _ => none
  | .destroy =>
    match s.ctl with
    -- the destructor calls `exit()` only while `running()`
    | .idle => some { s with ctl := if s.running then .stopLockDecode true else .delete }
    | _ => none
  | .timeout =>
    match s.ctl with
    | .stopWait ex =>
      -- the wait was too short: `stop()` returns false
      if s.drawFinish && s.decodeFinish then none
      else some { s with ctl := .stopUnlockDraw ex false }
    | .exitSendDecode =>
      -- the send to a full queue times out, and the wait begins anyway
      if s.decodeQueue.length < numberOfDecodeBuffer then none
      else some { s with ctl := .exitWaitDecode }
    -- `exit()` returns at once when a task does not answer
    | .exitWaitDecode => if s.decodeStopped then none else some { s with ctl := .delete }
    | .exitSendDraw =>
      if s.drawQueue.length < numberOfDrawBuffer then none
      else some { s with ctl := .exitWaitDraw }
    | .exitWaitDraw => if s.drawStopped then none else some { s with ctl := .delete }
    | _ => none
  | .go =>
    match s.ctl with
    | .sending f =>
      if s.decodeQueue.length < numberOfDecodeBuffer then
        some { s with ctl := .idle, decodeQueue := s.decodeQueue ++ [some f] }
      else none
    | .stopLockDecode ex =>
      if s.decodeMutex = none then
        some { s with ctl := .stopLockDraw ex, decodeMutex := some .ctl }
      else none
    | .stopLockDraw ex =>
      if s.drawMutex = none then
        some { s with ctl := .stopDrainDecode ex, drawMutex := some .ctl }
      else none
    | .stopDrainDecode ex =>
      match s.decodeQueue with
      | [] => some { s with ctl := .stopDrainDraw ex }
      | m :: q => some { s with ctl := .stopFreeDecode ex m, decodeQueue := q }
    | .stopFreeDecode ex m =>
      some { s with ctl := .stopDrainDecode ex, released := frameTokens m ++ s.released }
    | .stopDrainDraw ex =>
      match s.drawQueue with
      | [] => some { s with ctl := .stopWait ex }
      | m :: q => some { s with ctl := .stopFreeDraw ex m, drawQueue := q }
    | .stopFreeDraw ex m =>
      some { s with ctl := .stopDrainDraw ex, released := blockTokens m ++ s.released }
    | .stopWait ex =>
      if s.drawFinish && s.decodeFinish then some { s with ctl := .stopUnlockDraw ex true }
      else none
    | .stopUnlockDraw ex ret =>
      some { s with ctl := .stopUnlockDecode ex ret, drawMutex := none }
    | .stopUnlockDecode ex ret =>
      some { s with ctl := if ex then .exitSendDecode else .stopped ret, decodeMutex := none }
    | .stopped _ => some { s with ctl := .idle }
    | .exitSendDecode =>
      -- the exit signal
      if s.decodeQueue.length < numberOfDecodeBuffer then
        some { s with ctl := .exitWaitDecode, decodeQueue := s.decodeQueue ++ [none] }
      else none
    | .exitWaitDecode => if s.decodeStopped then some { s with ctl := .exitSendDraw } else none
    | .exitSendDraw =>
      if s.drawQueue.length < numberOfDrawBuffer then
        some { s with ctl := .exitWaitDraw, drawQueue := s.drawQueue ++ [none] }
      else none
    | .exitWaitDraw => if s.drawStopped then some { s with ctl := .delete } else none
    -- the event group is deleted, whoever still uses it
    | .delete => some { s with ctl := .destroyed }
    | _ => none

/-! ## The decode task -/

/-- The outcomes of the decode task's allocations. -/
inductive DecAct
  /-- the first step of the task, with the outcome of allocating its `JPEGDEC` -/
  | start (jpegDec : Bool)
  /-- a block of the image is done; the outcomes of allocating its record and pixels -/
  | block (record pixels : Bool)
  | go
  deriving DecidableEq, Repr

def decStep (s : Pipeline) : DecAct → Option Pipeline
  | .start ok =>
    match s.dec with
    | .ready => some { s with dec := .receive, decodeStopped := false, jpegDec := ok }
    | _ => none
  | .block record pixels =>
    match s.dec with
    | .decoding f (n + 1) =>
      if record then
        if pixels then
          some { s with dec := .sending f n ⟨s.next, s.next + 1⟩, next := s.next + 2 }
        -- only a warning is logged: the record is neither queued nor freed
        else some { s with dec := .decoding f n, next := s.next + 1 }
      -- the pixels are allocated before their address is stored in the record
      else some { s with fault := true, next := if pixels then s.next + 1 else s.next }
    | _ => none
  | .go =>
    match s.dec with
    | .receive =>
      match s.decodeQueue with
      | [] => none
      | m :: q => some { s with dec := .got m, decodeQueue := q }
    | .got m =>
      if s.decodeMutex = none then some { s with dec := .locked m, decodeMutex := some .dec }
      else none
    | .locked none => some { s with dec := .quitUnlock, decodeFinish := false }
    | .locked (some f) =>
      -- `m_jpegDec` is used without a test
      if s.jpegDec then some { s with dec := .decoding f f.blocks, decodeFinish := false }
      else some { s with decodeFinish := false, fault := true }
    -- all blocks are drawn
    | .decoding f 0 => some { s with dec := .free f }
    | .sending f n b =>
      if s.drawQueue.length < numberOfDrawBuffer then
        some { s with dec := .decoding f n, drawQueue := s.drawQueue ++ [some b] }
      else none
    | .free f => some { s with dec := .finish, released := f.token :: s.released }
    | .finish => some { s with dec := .unlock, decodeFinish := true }
    | .unlock => some { s with dec := .receive, decodeMutex := none }
    | .quitUnlock => some { s with dec := .quitQueue, decodeMutex := none }
    -- the queue is deleted with what is in it
    | .quitQueue => some { s with dec := .quitBits, decodeQueue := [] }
    | .quitBits => some { s with dec := .quitRead, decodeStopped := true }
    | .quitRead => some { s with dec := .done }
    | _ => none

/-! ## The draw task -/

def drwStep (s : Pipeline) : Option Pipeline :=
  match s.drw with
  | .absent => none
  | .ready => some { s with drw := .receive, drawStopped := false }
  | .receive =>
    match s.drawQueue with
    | [] => none
    | m :: q => some { s with drw := .got m, drawQueue := q }
  | .got m =>
    if s.drawMutex = none then some { s with drw := .locked m, drawMutex := some .drw } else none
  | .locked none => some { s with drw := .quitUnlock, drawFinish := false }
  | .locked (some b) => some { s with drw := .draw b, drawFinish := false }
  | .draw b => some { s with drw := .free b }
  | .free b => some { s with drw := .finish, released := blockTokens (some b) ++ s.released }
  | .finish => some { s with drw := .unlock, drawFinish := true }
  | .unlock => some { s with drw := .receive, drawMutex := none }
  | .quitUnlock => some { s with drw := .quitQueue, drawMutex := none }
  | .quitQueue => some { s with drw := .quitBits, drawQueue := [] }
  | .quitBits => some { s with drw := .quitRead, drawStopped := true }
  | .quitRead => some { s with drw := .done }
  | .done => none

/-! ## The system -/

inductive Act
  | ctl (c : Choice)
  | dec (a : DecAct)
  | drw
  deriving DecidableEq, Repr

def Act.thread : Act → Thread
  | ctl _ => .ctl
  | dec _ => .dec
  | drw => .drw

def Pipeline.step (s : Pipeline) (a : Act) : Option Pipeline :=
  -- the device resets
  if s.fault then none
  else
    match a with
    | .ctl c => ctlStep s c
    | .dec a => decStep s a
    | .drw => drwStep s

end Ivy.Native
