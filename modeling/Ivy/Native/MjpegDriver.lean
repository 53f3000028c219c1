import Ivy.Native.MjpegCodec
import Mathlib.Algebra.Group.Nat.Defs

/-!
# The video player

`MjpegDriver` plays one bound file through its codec. `play_frame` is called over
and over by the player task; the other functions are called from outside. A call
can fail to return: it can wait for `m_lock` while its own thread holds it, and it
can follow the null pointer `m_decoder`. `Outcome` keeps both apart from a return.

The clock and the heap are the environment. `Tick` holds what one round of
`play_frame`'s loop reads of them. The wait for `m_next_frame_ms` only lets time
pass and is not recorded.
-/

namespace Ivy.Native

/-! ## Files -/

/-- A file on the card; its size is a 32-bit number. -/
structure Asset where
  bytes : List UInt8
  size_lt : bytes.length < 2 ^ 32

/-- An open `File`: its content and the bytes from the file position on. -/
structure File where
  asset : Asset
  rest : List UInt8

/-- `SD_MMC.open` -/
def File.openAsset (a : Asset) : File := ⟨a, a.bytes⟩

/-- A closed file has nothing to read; a missing one opens like this. -/
def File.closed : File := .openAsset ⟨[], by decide⟩

/-- `File::available() > 0` -/
def File.available (f : File) : Bool := !f.rest.isEmpty

/-- `File::seek(0)` -/
def File.seekStart (f : File) : File := .openAsset f.asset

/-! ## State -/

/-- `play_status_t` -/
inductive PlayStatus
  | normal
  | complete
  | error
  deriving DecidableEq, Repr

/-- What the player did with the bound file. `ending` is the `stop()` inside
    `play_frame`, with the status that is to be returned after it. -/
inductive Event
  | handed (data : List UInt8)
  | skipped (data : List UInt8)
  | ending (status : PlayStatus)
  | decoderStopped
  deriving DecidableEq, Repr

/-- The fields of `MjpegDriver`. `locked` says that the calling thread holds
    `m_lock`; `log` is the record of the calls since the file was bound. -/
structure MjpegDriver where
  locked : Bool := false
  playing : Bool := false
  decoder : Option MjpegCodec := none
  repeatCount : Int32 := 0
  currentRepeat : UInt32 := 0
  nextFrameMs : UInt32 := 0
  startMs : UInt32 := 0
  isImage : Bool := false
  currentFrames : UInt32 := 0
  faded : Bool := false
  animFile : File := .closed
  log : List Event := []

/-- `m_fps` -/
def fps : UInt8 := 25

/-- How a call ends: it returns, waits forever for a lock its own thread holds,
    follows a null pointer, or is still in its loop when the budget is used up. -/
inductive Outcome (α : Type)
  | returns (a : α) (d : MjpegDriver)
  | blocked (d : MjpegDriver)
  | crashed (d : MjpegDriver)
  | running (d : MjpegDriver)

namespace Outcome

variable {α β : Type}

/-- The driver as the call leaves it. -/
def driver : Outcome α → MjpegDriver
  | returns _ d => d
  | blocked d => d
  | crashed d => d
  | running d => d

def isBlocked : Outcome α → Bool
  | blocked _ => true
  | _ => false

/-- Go on with `f` after a return. -/
def andThen : Outcome α → (α → MjpegDriver → Outcome β) → Outcome β
  | returns a d, f => f a d
  | blocked d, _ => blocked d
  | crashed d, _ => crashed d
  | running d, _ => running d

end Outcome

/-- What one round of `play_frame`'s loop reads of its environment: the outcomes of
    `read_frame`'s allocations, `millis()` at the skip test and `millis()` at the
    end of the round. -/
structure Tick where
  alloc : Nat → Bool
  now : UInt32
  start : UInt32

namespace MjpegDriver

def logged (d : MjpegDriver) (e : Event) : MjpegDriver := { d with log := d.log ++ [e] }

/-! ## Stopping -/

/-- `MjpegDriver::reset_play_status` -/
def resetPlayStatus (d : MjpegDriver) : MjpegDriver :=
  { d with
    currentRepeat := 0, startMs := 0, nextFrameMs := 0, animFile := .closed
    decoder := d.decoder.map MjpegCodec.resetInputStatus
    currentFrames := 0, isImage := false, faded := false }

/-- `MjpegDriver::stop` -/
def stop (d : MjpegDriver) : Outcome Unit :=
  if d.playing then
    -- the guard's scope ends before the decoder is stopped
    if d.locked then .blocked d
    else
      let d := { d with playing := false }
      match d.decoder with
      | none => .crashed d
      | some _ => .returns () (d.logged .decoderStopped).resetPlayStatus
  else .returns () d

/-! ## Playing -/

/-- `m_repeat == -1 || m_current_repeat < m_repeat`, compared as unsigned numbers. -/
def repeatsLeft (d : MjpegDriver) : Bool :=
  d.repeatCount == -1 || d.currentRepeat < d.repeatCount.toUInt32

/-- What the loop does at its head. -/
inductive Head
  | image (d : MjpegDriver)
  | finish
  | play (d : MjpegDriver)

/-- The end-of-file test of `play_frame`: rewind for another pass, settle on the
    only frame of a still image, or finish. -/
def loopHead (d : MjpegDriver) : Head :=
  if d.animFile.available then .play d
  else if d.repeatsLeft then
    -- a file of one frame is not decoded again
    if d.currentFrames = 1 then .image { d with isImage := true }
    -- the decoder is told, but keeps what is in its window
    else .play
      { d with
        currentFrames := 0, startMs := 0, currentRepeat := d.currentRepeat + 1
        animFile := d.animFile.seekStart
        decoder := d.decoder.map MjpegCodec.resetInputStatus }
  else .finish

/-- `skip`: the first frame of a pass is never skipped. -/
def late (d : MjpegDriver) (now : UInt32) : Bool :=
  d.nextFrameMs < now && 0 < d.startMs

/-- The bookkeeping at the end of a round. -/
def countFrame (d : MjpegDriver) (start : UInt32) : MjpegDriver :=
  -- the first frame of a pass starts its clock
  let d := if d.startMs = 0 then { d with faded := true, startMs := start } else d
  { d with
    currentFrames := d.currentFrames + 1
    nextFrameMs := d.startMs + (d.currentFrames + 1) * 1000 / fps.toUInt32 }

/-- The codec and the file position after a `read_frame` call. -/
def afterRead (d : MjpegDriver) (c : MjpegCodec) (rest : List UInt8) : MjpegDriver :=
  { d with decoder := some c, animFile := { d.animFile with rest } }

/-- Read the next frame and hand it to the decoder or skip it. The result is the
    status to return, or none for another round. -/
def playNext (d : MjpegDriver) (t : Tick) : Outcome (Option PlayStatus) :=
  match d.decoder with
  -- `m_decoder` is followed without a test
  | none => .crashed d
  | some c =>
    match c.readFrame t.alloc d.animFile.rest with
    -- `stop` is called with the lock held
    | (none, c', rest) =>
      ((d.afterRead c' rest).logged (.ending .error)).stop.andThen
        fun _ d => .returns (some .error) d
    | (some data, c', rest) =>
      -- a skipped frame is freed, and counts like one that is shown
      if d.late t.now then
        .returns none (((d.afterRead c' rest).logged (.skipped data)).countFrame t.start)
      else
        .returns (some .normal) (((d.afterRead c' rest).logged (.handed data)).countFrame t.start)

/-- One round of `play_frame`'s loop. -/
def playRound (d : MjpegDriver) (t : Tick) : Outcome (Option PlayStatus) :=
  match d.loopHead with
  | .image d => .returns (some .normal) d
  | .finish => (d.logged (.ending .complete)).stop.andThen fun _ d => .returns (some .complete) d
  | .play d => d.playNext t

/-- The loop of `play_frame`; its round `k` runs in environment `ticks k`. -/
def playLoop : Nat → (Nat → Tick) → MjpegDriver → Outcome PlayStatus
  | 0, _, d => .running d
  | fuel + 1, ticks, d =>
    (d.playRound (ticks 0)).andThen fun status d =>
      match status with
      | some status => .returns status d
      | none => playLoop fuel (fun k => ticks (k + 1)) d

/-- The bytes of the file no frame has taken yet. -/
def pending (d : MjpegDriver) : Nat :=
  match d.decoder with
  | none => 0
  | some c => c.pending d.animFile.rest

/-- `MjpegDriver::play_frame`. Every skipped frame takes a byte, so the budget of the
    loop is never used up. -/
def playFrame (ticks : Nat → Tick) (d : MjpegDriver) : Outcome PlayStatus :=
  -- the mutex is not recursive
  if d.locked then .blocked d
  else
    let d := { d with locked := true }
    let result :=
      if d.playing then
        if d.isImage then .returns .normal d
        else playLoop (d.pending + 1) ticks d
      else .returns .complete d
    -- the guard unlocks on every return
    result.andThen fun status d => .returns status { d with locked := false }

/-- `n` rounds of `MjpegDriver::play_routine`, as far as they return. -/
def playRoutine (ticks : Nat → Nat → Tick) (d : MjpegDriver) : Nat → Outcome PlayStatus
  | 0 => .returns .normal d
  | n + 1 => (playRoutine ticks d n).andThen fun _ d => d.playFrame (ticks n)

/-! ## The other calls -/

/-- `MjpegDriver::prepare_resource`: a new codec in memory that holds `behind` after
    the window. -/
def prepareResource (behind : Nat → UInt8) (d : MjpegDriver) : MjpegDriver :=
  { d with decoder := some (.fresh behind) }

/-- `MjpegDriver::anim_bind_assets` -/
def animBindAssets (a : Asset) (d : MjpegDriver) : Bool × MjpegDriver :=
  -- a file is bound already
  if d.playing then (false, d)
  else
    let d := { d with playing := true, animFile := .openAsset a, log := [] }
    (d.animFile.available, d)

/-- `MjpegDriver::set_repeat` -/
def setRepeat (n : Int32) (d : MjpegDriver) : MjpegDriver :=
  { d with repeatCount := n }

/-- `MjpegDriver::drv_activation_cb` -/
def drvActivationCb (activate : Bool) (d : MjpegDriver) : Outcome Unit :=
  if activate then .returns () d else d.stop

end MjpegDriver

/-- A call of the player's interface. -/
inductive Call
  | prepareResource (behind : Nat → UInt8)
  | animBindAssets (a : Asset)
  | setRepeat (n : Int32)
  | playFrame (ticks : Nat → Tick)
  | stop
  | drvActivationCb (activate : Bool)

def Call.exec : Call → MjpegDriver → Outcome Unit
  | prepareResource behind, d => .returns () (d.prepareResource behind)
  | animBindAssets a, d => .returns () (d.animBindAssets a).2
  | setRepeat n, d => .returns () (d.setRepeat n)
  | playFrame ticks, d => (d.playFrame ticks).andThen fun _ d => .returns () d
  | stop, d => d.stop
  | drvActivationCb activate, d => d.drvActivationCb activate

/-- A sequence of calls, up to the first one that does not return. -/
def runCalls : List Call → MjpegDriver → Outcome Unit
  | [], d => .returns () d
  | c :: cs, d => (c.exec d).andThen fun _ d => runCalls cs d

end Ivy.Native
