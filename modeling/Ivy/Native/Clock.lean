import Ivy.Native.MjpegDriver

/-!
# What is done with millis()

`millis()` is the uptime in milliseconds, as a `uint32_t`: it starts again from zero after
49 days. Two parts of the firmware compare it with what it was before: the player, which
paces its frames by it, and `IOT`, which carries a synchronised time on.
-/

namespace Ivy.Native

/-- `millis()` at the real uptime of `t` milliseconds. -/
def millis (t : Nat) : UInt32 := UInt32.ofNat t

/-! ## Frame pacing -/

/-- The fields of `MjpegDriver` that pace a pass. -/
structure Pacing where
  fps : UInt8
  nextFrameMs : UInt32
  startMs : UInt32
  currentFrames : UInt32
  deriving DecidableEq, Repr

namespace Pacing

variable (p : Pacing)

/-- Before the first frame of a file. -/
def init (fps : UInt8) : Pacing := ⟨fps, 0, 0, 0⟩

/-- `skip` -/
def late (now : UInt32) : Bool := p.nextFrameMs < now && 0 < p.startMs

/-- The condition of the loop that waits for the time of the frame. -/
def early (now : UInt32) : Bool := now < p.nextFrameMs

/-- The end of a round of `play_frame`. -/
def countFrame (now : UInt32) : Pacing :=
  -- the first frame of a pass is recognised by a start of zero
  let p := if p.startMs = 0 then { p with startMs := now } else p
  { p with
    currentFrames := p.currentFrames + 1
    nextFrameMs := p.startMs + (p.currentFrames + 1) * 1000 / p.fps.toUInt32 }

/-- The file is played again. -/
def rewind : Pacing := { p with currentFrames := 0, startMs := 0 }

/-- `MjpegDriver::reset_play_status` -/
def resetPlayStatus : Pacing := { p with startMs := 0, nextFrameMs := 0, currentFrames := 0 }

end Pacing

/-- The pacing of a driver. -/
def MjpegDriver.pacing (d : MjpegDriver) : Pacing :=
  ⟨Native.fps, d.nextFrameMs, d.startMs, d.currentFrames⟩

/-! ## The synchronised time -/

/-- `time_sync_t` -/
structure TimeSync where
  timestamp : UInt32
  sysTime : UInt32
  deriving DecidableEq, Repr

/-- `IOT::set_time_sync` -/
def TimeSync.setTimeSync (_ : TimeSync) (timestamp sysTime : UInt32) : TimeSync :=
  ⟨timestamp, sysTime⟩

/-- `IOT::get_synced_timestamp`, with what `millis()` returns. -/
def TimeSync.getSyncedTimestamp (s : TimeSync) (now : UInt32) : UInt32 :=
  -- the seconds are those of the wrapped milliseconds
  now / 1000 - s.sysTime + s.timestamp

end Ivy.Native
