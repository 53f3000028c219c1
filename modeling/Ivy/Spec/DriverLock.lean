import Ivy.Native.MjpegDriver
import Ivy.Spec.ReadFrameProgress

/-!
# The lock of the video player

`play_frame` holds `m_lock` for the whole call, and two branches of its loop call
`stop()`, which takes `m_lock` again while `m_playing` is set. A call that comes to
one of them waits for itself. `Round` lists the ways a round of the loop can go.
-/

namespace Ivy.Spec

open Ivy.Native

/-- The state of a driver between two calls. -/
structure Sound (d : MjpegDriver) : Prop where
  unlocked : d.locked = false
  fits : ∀ c, d.decoder = some c → c.bufRead ≤ 1024

/-- The state of a driver inside `play_frame`'s loop. -/
structure InLoop (d : MjpegDriver) : Prop where
  locked : d.locked = true
  playing : d.playing = true
  fits : ∀ c, d.decoder = some c → c.bufRead ≤ 1024

/-- Inside `play_frame` the lock is held. -/
theorem Sound.inLoop {d : MjpegDriver} (hd : Sound d) (hp : d.playing = true) :
    InLoop { d with locked := true } :=
  ⟨rfl, hp, hd.fits⟩

/-! ## Rounds of the loop -/

/-- `stop` waits for a lock that is held. -/
theorem stop_of_locked {d : MjpegDriver} (hl : d.locked = true) (hp : d.playing = true) :
    d.stop = .blocked d := by
  simp only [MjpegDriver.stop, hl, hp, if_true]

/-- The head of the loop keeps the lock. -/
theorem loopHead_play {d d' : MjpegDriver} (h : d.loopHead = .play d') (hd : InLoop d) :
    InLoop d' := by
  unfold MjpegDriver.loopHead at h
  split at h
  · cases h; exact hd
  · split at h
    · split at h
      · cases h
      · cases h
        refine ⟨hd.locked, hd.playing, fun c hc => ?_⟩
        -- a rewound codec has an empty window
        obtain ⟨c', _, rfl⟩ := Option.map_eq_some_iff.mp hc
        simp [MjpegCodec.resetInputStatus]
    · cases h

/-- A rewind starts a new pass, whose first frame is never late. -/
theorem loopHead_pending {d d' : MjpegDriver} {now : UInt32} (h : d.loopHead = .play d')
    (hlate : d'.late now = true) : d' = d := by
  unfold MjpegDriver.loopHead at h
  split at h
  · cases h; rfl
  · split at h
    · split at h
      · exact nomatch h
      · cases h
        -- the rewind has set the start to zero, and then no frame is late
        simp [MjpegDriver.late] at hlate
    · exact nomatch h

/-- The ways a round of the loop can go, with what each of them tells about `d`. -/
inductive Round (t : Tick) (d : MjpegDriver) : Outcome (Option PlayStatus) → Prop
  | image {d₁ : MjpegDriver} (hhead : d.loopHead = .image d₁) :
      Round t d (.returns (some .normal) d₁)
  | finish (hhead : d.loopHead = .finish) : Round t d (.blocked (d.logged (.ending .complete)))
  | crash {d₁ : MjpegDriver} (hhead : d.loopHead = .play d₁) (hc : d₁.decoder = none) :
      Round t d (.crashed d₁)
  | fail {d₁ : MjpegDriver} {c c' : MjpegCodec} {rest : List UInt8}
      (hhead : d.loopHead = .play d₁) (hc : d₁.decoder = some c)
      (hread : c.readFrame t.alloc d₁.animFile.rest = (none, c', rest)) :
      Round t d (.blocked ((d₁.afterRead c' rest).logged (.ending .error)))
  | skip {d₁ : MjpegDriver} {c c' : MjpegCodec} {data rest : List UInt8}
      (hhead : d.loopHead = .play d₁) (hc : d₁.decoder = some c)
      (hread : c.readFrame t.alloc d₁.animFile.rest = (some data, c', rest))
      (hlate : d₁.late t.now = true) :
      Round t d (.returns none (((d₁.afterRead c' rest).logged (.skipped data)).countFrame t.start))
  | hand {d₁ : MjpegDriver} {c c' : MjpegCodec} {data rest : List UInt8}
      (hhead : d.loopHead = .play d₁) (hc : d₁.decoder = some c)
      (hread : c.readFrame t.alloc d₁.animFile.rest = (some data, c', rest))
      (hlate : d₁.late t.now = false) :
      Round t d (.returns (some .normal)
        (((d₁.afterRead c' rest).logged (.handed data)).countFrame t.start))

/-- The ways in which a round can go. -/
theorem playRound_cases {d : MjpegDriver} (hd : InLoop d) (t : Tick) :
    Round t d (d.playRound t) := by
  unfold MjpegDriver.playRound
  cases hhead : d.loopHead with
  | image d₁ => exact .image hhead
  | finish =>
    dsimp only
    -- the file is over and no repeat is left: `stop()` waits for the lock of this call
    rw [stop_of_locked (d := d.logged (.ending .complete)) hd.locked hd.playing]
    exact .finish hhead
  | play d₁ =>
    have hd₁ := loopHead_play hhead hd
    unfold MjpegDriver.playNext
    dsimp only
    cases hc : d₁.decoder with
    | none => exact .crash hhead hc
    | some c =>
      dsimp only
      -- a frame that could not be read ends the playing
      rcases hread : c.readFrame t.alloc d₁.animFile.rest with ⟨data, c', rest⟩
      cases data with
      | none =>
        dsimp only
        rw [stop_of_locked (d := (d₁.afterRead c' rest).logged (.ending .error))
          hd₁.locked hd₁.playing]
        exact .fail hhead hc hread
      | some data =>
        dsimp only
        split
        · exact .skip hhead hc hread ‹_›
        · exact .hand hhead hc hread (Bool.not_eq_true _ ▸ ‹¬ _›)

/-- Counting a frame leaves the lock, -/
@[simp] theorem countFrame_locked (d : MjpegDriver) (start : UInt32) :
    (d.countFrame start).locked = d.locked := by
  unfold MjpegDriver.countFrame; split <;> rfl

/-- the flag, -/
@[simp] theorem countFrame_playing (d : MjpegDriver) (start : UInt32) :
    (d.countFrame start).playing = d.playing := by
  unfold MjpegDriver.countFrame; split <;> rfl

/-- the decoder, -/
@[simp] theorem countFrame_decoder (d : MjpegDriver) (start : UInt32) :
    (d.countFrame start).decoder = d.decoder := by
  unfold MjpegDriver.countFrame; split <;> rfl

/-- the file, -/
@[simp] theorem countFrame_animFile (d : MjpegDriver) (start : UInt32) :
    (d.countFrame start).animFile = d.animFile := by
  unfold MjpegDriver.countFrame; split <;> rfl

/-- the log, -/
@[simp] theorem countFrame_log (d : MjpegDriver) (start : UInt32) :
    (d.countFrame start).log = d.log := by
  unfold MjpegDriver.countFrame; split <;> rfl

/-- the image, -/
@[simp] theorem countFrame_isImage (d : MjpegDriver) (start : UInt32) :
    (d.countFrame start).isImage = d.isImage := by
  unfold MjpegDriver.countFrame; split <;> rfl

/-- the setting -/
@[simp] theorem countFrame_repeatCount (d : MjpegDriver) (start : UInt32) :
    (d.countFrame start).repeatCount = d.repeatCount := by
  unfold MjpegDriver.countFrame; split <;> rfl

/-- and the pass. -/
@[simp] theorem countFrame_currentRepeat (d : MjpegDriver) (start : UInt32) :
    (d.countFrame start).currentRepeat = d.currentRepeat := by
  unfold MjpegDriver.countFrame; split <;> rfl

/-- It counts the frame. -/
@[simp] theorem countFrame_currentFrames (d : MjpegDriver) (start : UInt32) :
    (d.countFrame start).currentFrames = d.currentFrames + 1 := by
  unfold MjpegDriver.countFrame; split <;> rfl

/-- Reading a frame keeps the loop's state. -/
theorem InLoop.read {d : MjpegDriver} {c c' : MjpegCodec} {data : Option (List UInt8)}
    {rest : List UInt8} {t : Tick} (hd : InLoop d) (hc : d.decoder = some c)
    (hread : c.readFrame t.alloc d.animFile.rest = (data, c', rest)) (e : Event) (start : UInt32) :
    InLoop (((d.afterRead c' rest).logged e).countFrame start) := by
  have hb := readFrame_bounded (m := c.readBuf) t.alloc d.animFile.rest
    ⟨hd.fits c hc, fun _ _ => rfl⟩
  rw [hread] at hb
  refine ⟨by rw [countFrame_locked]; exact hd.locked, by rw [countFrame_playing]; exact hd.playing,
    fun c'' hc'' => ?_⟩
  -- the codec is the one that `read_frame` has left
  rw [countFrame_decoder] at hc''
  cases hc''
  exact hb.fits

/-- A round that is followed by another one keeps the loop's state and takes a byte
    of the file. -/
theorem playRound_again {d d' : MjpegDriver} {t : Tick} (hd : InLoop d)
    (h : d.playRound t = .returns none d') : InLoop d' ∧ d'.pending < d.pending := by
  have hround := playRound_cases hd t
  rw [h] at hround
  cases hround with
  | @skip d₁ c c' data rest hhead hc hread hlate =>
    -- a late frame was not preceded by a rewind, so that the byte is one of the same pass
    obtain rfl := loopHead_pending hhead hlate
    refine ⟨hd.read hc hread _ _, ?_⟩
    have hadv := readFrame_advanced _ (hd.fits c hc) hread
    simp only [MjpegDriver.pending, countFrame_decoder, countFrame_animFile, hc]
    exact hadv.pending

/-- A round that ends the call returns `normal` and keeps the loop's state. -/
theorem playRound_last {d d' : MjpegDriver} {t : Tick} {status : PlayStatus} (hd : InLoop d)
    (h : d.playRound t = .returns (some status) d') : status = .normal ∧ InLoop d' := by
  have hround := playRound_cases hd t
  rw [h] at hround
  cases hround with
  -- an image ends the loop at once
  | image hhead =>
    refine ⟨rfl, ?_⟩
    unfold MjpegDriver.loopHead at hhead
    split at hhead
    · exact nomatch hhead
    · split at hhead
      · split at hhead
        · cases hhead; exact ⟨hd.locked, hd.playing, hd.fits⟩
        · exact nomatch hhead
      · exact nomatch hhead
  | hand hhead hc hread hlate => exact ⟨rfl, (loopHead_play hhead hd).read hc hread _ _⟩

/-- A call that waits for itself is not followed by another one. -/
theorem andThen_isBlocked {α β : Type} {o : Outcome α} {f : α → MjpegDriver → Outcome β}
    (h : o.isBlocked = true) : (o.andThen f).isBlocked = true := by
  cases o with
  | blocked d => rfl
  | _ => exact nomatch h

end Ivy.Spec
