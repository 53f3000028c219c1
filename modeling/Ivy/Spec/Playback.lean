import Mathlib.Data.Nat.Find
import Ivy.Spec.DriverLock

/-!
# Playing a file to its end

The player takes the end of the *file* for the end of a pass, while `read_frame`
reads up to a window ahead. The two agree only if the file is used up by the read
that follows the last frame and by no earlier one. `Midway` follows a pass frame by
frame; the number of frames a pass hands over is the first `e` after which the file
is used up (`routine_passes`).
-/

namespace Ivy.Spec

open Ivy.Native

/-- Every allocation succeeds and no frame is skipped. -/
structure OnTime (ticks : Nat → Nat → Tick) (d : MjpegDriver) : Prop where
  alloc : ∀ n k, (ticks n k).alloc = fun _ => true
  noSkip : ∀ n data, Event.skipped data ∉ (d.playRoutine ticks n).driver.log

/-- Played on time, the player hands over `blocks` again and again, `r + 1` times in
    all, and then takes its complete branch. -/
def PlaysRepeated (d : MjpegDriver) (blocks : List (List UInt8)) (r : Nat) : Prop :=
  ∀ ticks, OnTime ticks d → ∃ n, (d.playRoutine ticks n).driver.log =
    (List.replicate (r + 1) blocks).flatten.map .handed ++ [.ending .complete]

/-! ## The log grows -/

/-- The head of the loop logs nothing when it goes on. -/
theorem loopHead_log {d d₁ : MjpegDriver} (h : d.loopHead = .play d₁ ∨ d.loopHead = .image d₁) :
    d₁.log = d.log := by
  unfold MjpegDriver.loopHead at h
  split at h
  · simp only [MjpegDriver.Head.play.injEq, reduceCtorEq, or_false] at h
    rw [h]
  · split at h
    · split at h
      · simp only [reduceCtorEq, MjpegDriver.Head.image.injEq, false_or] at h
        rw [← h]
      · simp only [MjpegDriver.Head.play.injEq, reduceCtorEq, or_false] at h
        rw [← h]
    · simp at h

/-- A round keeps the log. -/
theorem playRound_log {d : MjpegDriver} {t : Tick} {e : Event} (hd : InLoop d) (he : e ∈ d.log) :
    e ∈ (d.playRound t).driver.log := by
  have hround := playRound_cases hd t
  generalize d.playRound t = out at hround
  cases hround with
  -- the head changes nothing of the log, and the rest of the round appends to it
  | image hhead => rw [← loopHead_log (.inr hhead)] at he; exact he
  | finish hhead => exact List.mem_append_left _ he
  | crash hhead hc => rw [← loopHead_log (.inl hhead)] at he; exact he
  | fail hhead hc hread =>
    rw [← loopHead_log (.inl hhead)] at he
    exact List.mem_append_left _ he
  | skip hhead hc hread hlate =>
    rw [← loopHead_log (.inl hhead)] at he
    simp only [Outcome.driver, countFrame_log]
    exact List.mem_append_left _ he
  | hand hhead hc hread hlate =>
    rw [← loopHead_log (.inl hhead)] at he
    simp only [Outcome.driver, countFrame_log]
    exact List.mem_append_left _ he

/-- The loop keeps the log. -/
theorem playLoop_log {fuel : Nat} {ticks : Nat → Tick} {d : MjpegDriver} {e : Event}
    (hd : InLoop d) (he : e ∈ d.log) : e ∈ (MjpegDriver.playLoop fuel ticks d).driver.log := by
  induction fuel generalizing ticks d with
  | zero => exact he
  | succ fuel ih =>
    have hlog := playRound_log (t := ticks 0) hd he
    unfold MjpegDriver.playLoop
    rcases hout : d.playRound (ticks 0) with ⟨status, d'⟩ | d' | d' | d'
    · rw [hout] at hlog
      cases status with
      | some status => exact hlog
      -- a skipped frame: the loop goes on
      | none => exact ih (playRound_again hd hout).1 hlog
    · rw [hout] at hlog; exact hlog
    · rw [hout] at hlog; exact hlog
    · rw [hout] at hlog; exact hlog

/-- A frame is only skipped after the time for the one before it has passed. -/
theorem playLoop_skipped {fuel : Nat} {ticks : Nat → Tick} {d : MjpegDriver} {data : List UInt8}
    (hd : InLoop d) (he : Event.skipped data ∈ (MjpegDriver.playLoop fuel ticks d).driver.log) :
    Event.skipped data ∈ d.log ∨ ∃ k, 0 < (ticks k).now := by
  cases fuel with
  | zero => exact .inl he
  | succ fuel =>
    have hround := playRound_cases hd (ticks 0)
    unfold MjpegDriver.playLoop at he
    rcases hout : d.playRound (ticks 0) with ⟨status, d'⟩ | d' | d' | d'
    all_goals rw [hout] at hround he
    · cases hround with
      | image hhead => rw [← loopHead_log (.inr hhead)]; exact .inl he
      | skip hhead hc hread hlate =>
        -- `millis()` was past a clock reading, so it was not zero
        simp only [MjpegDriver.late, Bool.and_eq_true, decide_eq_true_eq] at hlate
        exact .inr ⟨0, UInt32.lt_of_le_of_lt (UInt32.zero_le) hlate.1⟩
      | hand hhead hc hread hlate =>
        rw [← loopHead_log (.inl hhead)]
        simp only [Outcome.andThen, Outcome.driver, countFrame_log] at he
        rcases List.mem_append.mp he with he | he
        · exact .inl he
        · simp at he
    · cases hround with
      | finish hhead =>
        rcases List.mem_append.mp he with he | he
        · exact .inl he
        · simp at he
      | fail hhead hc hread =>
        rw [← loopHead_log (.inl hhead)]
        rcases List.mem_append.mp he with he | he
        · exact .inl he
        · simp at he
    · cases hround with
      | crash hhead hc => rw [← loopHead_log (.inl hhead)]; exact .inl he
    · cases hround

/-- A call that returns from its loop returns `normal`, keeps the loop's state and
    has not come to `stop()`. -/
theorem playLoop_returned {fuel : Nat} {ticks : Nat → Tick} {d d' : MjpegDriver}
    {status : PlayStatus} (hd : InLoop d)
    (h : MjpegDriver.playLoop fuel ticks d = .returns status d') :
    status = .normal ∧ InLoop d' ∧
      ∀ s, Event.ending s ∈ d'.log → Event.ending s ∈ d.log := by
  induction fuel generalizing ticks d with
  | zero => cases h
  | succ fuel ih =>
    have hround := playRound_cases hd (ticks 0)
    unfold MjpegDriver.playLoop at h
    rcases hout : d.playRound (ticks 0) with ⟨last, d₁⟩ | d₁ | d₁ | d₁
    all_goals rw [hout] at hround h
    · cases last with
      | some last =>
        obtain ⟨rfl, hd₁⟩ := playRound_last hd hout
        cases h
        refine ⟨rfl, hd₁, fun s hs => ?_⟩
        -- only a frame handed over or an image ends the loop in this way
        cases hround with
        | image hhead => rw [← loopHead_log (.inr hhead)]; exact hs
        | hand hhead hc hread hlate =>
          rw [← loopHead_log (.inl hhead)]
          rw [countFrame_log] at hs
          rcases List.mem_append.mp hs with hs | hs
          · exact hs
          · simp at hs
      | none =>
        -- a skipped frame is logged as such, and not as an end
        obtain ⟨hstatus, hd', hlog⟩ := ih (playRound_again hd hout).1 h
        refine ⟨hstatus, hd', fun s hs => ?_⟩
        have hs := hlog s hs
        cases hround with
        | skip hhead hc hread hlate =>
          rw [← loopHead_log (.inl hhead)]
          rw [countFrame_log] at hs
          rcases List.mem_append.mp hs with hs | hs
          · exact hs
          · simp at hs
    · cases h
    · cases h
    · cases h

/-! ## One call -/

section Calls

variable {ticks : Nat → Tick} {d : MjpegDriver}

/-- Without another holder of the lock, `play_frame` runs its loop and unlocks. -/
theorem playFrame_eq (hl : d.locked = false) (hp : d.playing = true) (hi : d.isImage = false) :
    d.playFrame ticks =
      (MjpegDriver.playLoop (d.pending + 1) ticks { d with locked := true }).andThen
        fun status d => .returns status { d with locked := false } := by
  simp only [MjpegDriver.playFrame, hl, hp, hi, Bool.false_eq_true, if_false, if_true]
  rfl

/-- Unlocking logs nothing. -/
theorem unlock_log (o : Outcome PlayStatus) :
    (o.andThen fun status d => .returns status { d with locked := false }).driver.log =
      o.driver.log := by
  cases o <;> rfl

/-- A frame that is read on time is handed over. -/
theorem playFrame_hands {d₁ : MjpegDriver} {c c' : MjpegCodec} {data rest : List UInt8}
    (hd : Sound d) (hp : d.playing = true) (hi : d.isImage = false)
    (hhead : ({ d with locked := true } : MjpegDriver).loopHead = .play d₁)
    (hc : d₁.decoder = some c)
    (hread : c.readFrame (ticks 0).alloc d₁.animFile.rest = (some data, c', rest))
    (hskip : Event.skipped data ∉ (d.playFrame ticks).driver.log) :
    d.playFrame ticks = .returns .normal
      { ((d₁.afterRead c' rest).logged (.handed data)).countFrame (ticks 0).start with
        locked := false } := by
  have hloop := hd.inLoop hp
  rw [playFrame_eq hd.unlocked hp hi] at hskip ⊢
  unfold MjpegDriver.playLoop at hskip ⊢
  -- the first round decides, unless its frame is late
  have hround : ({ d with locked := true } : MjpegDriver).playRound (ticks 0) =
      d₁.playNext (ticks 0) := by
    simp only [MjpegDriver.playRound, hhead]
  simp only [MjpegDriver.playNext, hc, hread] at hround
  cases hlate : d₁.late (ticks 0).now with
  | true =>
    rw [hlate, if_pos rfl] at hround
    -- a late frame is logged as skipped, against the assumption
    obtain ⟨hd', -⟩ := playRound_again hloop hround
    rw [hround] at hskip
    refine absurd ?_ hskip
    rw [unlock_log]
    apply playLoop_log hd'
    rw [countFrame_log]
    exact List.mem_append_right _ (List.mem_singleton_self _)
  | false =>
    rw [hlate, if_neg (by decide)] at hround
    rw [hround]
    rfl

/-- At the end of the last pass the call comes to `stop()`. -/
theorem playFrame_completes (hd : Sound d) (hp : d.playing = true) (hi : d.isImage = false)
    (hhead : ({ d with locked := true } : MjpegDriver).loopHead = .finish) :
    d.playFrame ticks =
      .blocked (MjpegDriver.logged { d with locked := true } (.ending .complete)) := by
  rw [playFrame_eq hd.unlocked hp hi]
  unfold MjpegDriver.playLoop MjpegDriver.playRound
  rw [hhead]
  dsimp only
  -- the lock is held by this very call
  rw [stop_of_locked (d := MjpegDriver.logged { d with locked := true } (.ending .complete)) rfl hp]
  rfl

/-- So it does when there is no frame to read. -/
theorem playFrame_fails {d₁ : MjpegDriver} {c c' : MjpegCodec} {rest : List UInt8}
    (hd : Sound d) (hp : d.playing = true) (hi : d.isImage = false)
    (hhead : ({ d with locked := true } : MjpegDriver).loopHead = .play d₁)
    (hc : d₁.decoder = some c)
    (hread : c.readFrame (ticks 0).alloc d₁.animFile.rest = (none, c', rest)) :
    d.playFrame ticks = .blocked ((d₁.afterRead c' rest).logged (.ending .error)) := by
  have hd₁ := loopHead_play hhead (hd.inLoop hp)
  rw [playFrame_eq hd.unlocked hp hi]
  unfold MjpegDriver.playLoop MjpegDriver.playRound
  rw [hhead]
  simp only [MjpegDriver.playNext, hc, hread]
  -- `stop` takes the lock that `play_frame` holds
  rw [stop_of_locked (d := (d₁.afterRead c' rest).logged (.ending .error)) hd₁.locked hd₁.playing]
  rfl

/-- A player with a bound file, between two calls. -/
structure Going (d : MjpegDriver) : Prop extends Sound d where
  playing : d.playing = true

/-- A call that returns is not the end of the playing. -/
theorem playFrame_going {d' : MjpegDriver} {status : PlayStatus} (hd : Going d)
    (h : d.playFrame ticks = .returns status d') :
    Going d' ∧ ∀ s, Event.ending s ∈ d'.log → Event.ending s ∈ d.log := by
  cases hi : d.isImage with
  | true =>
    -- an image is shown without the loop
    simp only [MjpegDriver.playFrame, hd.unlocked, hd.playing, hi, Bool.false_eq_true, if_false,
      if_true, Outcome.andThen, Outcome.returns.injEq] at h
    rw [← h.2]
    exact ⟨⟨⟨rfl, hd.fits⟩, rfl⟩, fun _ hs => hs⟩
  | false =>
    rw [playFrame_eq hd.unlocked hd.playing hi] at h
    rcases hout : MjpegDriver.playLoop (d.pending + 1) ticks { d with locked := true }
      with ⟨last, d₁⟩ | d₁ | d₁ | d₁
    all_goals rw [hout] at h
    · -- the lock is given back, and nothing else changes
      obtain ⟨-, hd₁, hlog⟩ := playLoop_returned (hd.inLoop hd.playing) hout
      cases h
      exact ⟨⟨⟨rfl, hd₁.fits⟩, hd₁.playing⟩, hlog⟩
    · exact nomatch h
    · exact nomatch h
    · exact nomatch h

/-- A frame skipped in a call needs a clock past zero. -/
theorem playFrame_skipped {data : List UInt8} (hd : Going d)
    (he : Event.skipped data ∈ (d.playFrame ticks).driver.log) :
    Event.skipped data ∈ d.log ∨ ∃ k, 0 < (ticks k).now := by
  cases hi : d.isImage with
  | true =>
    simp only [MjpegDriver.playFrame, hd.unlocked, hd.playing, hi, Bool.false_eq_true, if_false,
      if_true, Outcome.andThen, Outcome.driver] at he
    exact .inl he
  | false =>
    rw [playFrame_eq hd.unlocked hd.playing hi, unlock_log] at he
    have hskip := playLoop_skipped (hd.inLoop hd.playing) he
    exact hskip

end Calls

/-! ## Runs of calls -/

section Runs

variable {ticks : Nat → Nat → Tick} {d : MjpegDriver}

/-- Calls that return are not the end of the playing. -/
theorem playRoutine_going {d' : MjpegDriver} {status : PlayStatus} {n : Nat} (hd : Going d)
    (h : d.playRoutine ticks n = .returns status d') :
    Going d' ∧ ∀ s, Event.ending s ∈ d'.log → Event.ending s ∈ d.log := by
  induction n generalizing status d' with
  | zero => cases h; exact ⟨hd, fun _ hs => hs⟩
  | succ n ih =>
    unfold MjpegDriver.playRoutine at h
    rcases hout : d.playRoutine ticks n with ⟨last, d₁⟩ | d₁ | d₁ | d₁
    all_goals rw [hout] at h
    · obtain ⟨hd₁, hlog₁⟩ := ih hout
      obtain ⟨hd', hlog'⟩ := playFrame_going hd₁ h
      exact ⟨hd', fun s hs => hlog₁ s (hlog' s hs)⟩
    · exact nomatch h
    · exact nomatch h
    · exact nomatch h

/-- A frame is skipped only if the clock is once past zero. -/
theorem playRoutine_skipped {data : List UInt8} {n : Nat} (hd : Going d)
    (he : Event.skipped data ∈ (d.playRoutine ticks n).driver.log) :
    Event.skipped data ∈ d.log ∨ ∃ n k, 0 < (ticks n k).now := by
  induction n with
  | zero => exact .inl he
  | succ n ih =>
    unfold MjpegDriver.playRoutine at he
    rcases hout : d.playRoutine ticks n with ⟨last, d₁⟩ | d₁ | d₁ | d₁
    all_goals rw [hout] at he ih
    · -- skipped by this call, or by one before it
      rcases playFrame_skipped (playRoutine_going hd hout).1 he with hlog | ⟨k, hk⟩
      · exact ih hlog
      · exact .inr ⟨n, k, hk⟩
    · exact ih he
    · exact ih he
    · exact ih he

/-- A run in which the clock never leaves zero is on time. -/
theorem onTime_zero (hd : Going d) (hlog : d.log = []) :
    OnTime (fun _ _ => ⟨fun _ => true, 0, 0⟩) d where
  alloc _ _ := rfl
  noSkip n data he := by
    rcases playRoutine_skipped hd he with h | ⟨_, _, h⟩
    · rw [hlog] at h; exact nomatch h
    · exact absurd h (by decide)

/-- Once a call does not return, the run stays as it is. -/
theorem playRoutine_stuck {n m : Nat} (hle : n ≤ m)
    (h : ∀ status d', d.playRoutine ticks n ≠ .returns status d') :
    d.playRoutine ticks m = d.playRoutine ticks n := by
  induction hle with
  | refl => rfl
  | step _ ih =>
    rw [MjpegDriver.playRoutine, ih]
    rcases hout : d.playRoutine ticks n with ⟨status, d'⟩ | d' | d' | d'
    · exact absurd hout (h status d')
    · rfl
    · rfl
    · rfl

/-- A run comes to `stop()` at most once, so its log tells how it ends. -/
theorem playRoutine_ending {n m : Nat} {d' : MjpegDriver} {s : PlayStatus} (hd : Going d)
    (hlog : d.log = []) (hblocked : d.playRoutine ticks n = .blocked d')
    (hs : Event.ending s ∈ (d.playRoutine ticks m).driver.log) :
    (d.playRoutine ticks m).driver.log = d'.log := by
  rcases Nat.le_total n m with hle | hle
  · rw [playRoutine_stuck hle (fun _ _ => by rw [hblocked]; simp), hblocked]
    rfl
  · -- an ending is logged only by a call that does not return
    have hend : ∀ status d', d.playRoutine ticks m ≠ .returns status d' := by
      intro status d₁ hout
      rw [hout] at hs
      have := (playRoutine_going hd hout).2 s hs
      rw [hlog] at this
      exact nomatch this
    rw [← playRoutine_stuck hle hend, hblocked]
    rfl

end Runs

/-! ## Passes -/

section Passes

section Head

variable {d : MjpegDriver}

/-- With bytes left the loop goes on. -/
theorem loopHead_of_rest (h : d.animFile.rest ≠ []) : d.loopHead = .play d := by
  unfold MjpegDriver.loopHead
  rw [if_pos (by simpa [File.available] using h)]

/-- At the end of the file the next pass begins. -/
theorem loopHead_rewind (h : d.animFile.rest = []) (hleft : d.repeatsLeft = true)
    (hcount : d.currentFrames ≠ 1) :
    d.loopHead = .play
      { d with
        currentFrames := 0, startMs := 0, currentRepeat := d.currentRepeat + 1
        animFile := d.animFile.seekStart
        decoder := d.decoder.map MjpegCodec.resetInputStatus } := by
  unfold MjpegDriver.loopHead
  rw [if_neg (by simp [File.available, h]), if_pos hleft, if_neg hcount]

/-- One frame only makes an image of the animation. -/
theorem loopHead_image (h : d.animFile.rest = []) (hleft : d.repeatsLeft = true)
    (hcount : d.currentFrames = 1) : d.loopHead = .image { d with isImage := true } := by
  unfold MjpegDriver.loopHead
  rw [if_neg (by simp [File.available, h]), if_pos hleft, if_pos hcount]

/-- After the last pass the playing ends. -/
theorem loopHead_finish (h : d.animFile.rest = []) (hleft : ¬ d.repeatsLeft = true) :
    d.loopHead = .finish := by
  unfold MjpegDriver.loopHead
  rw [if_neg (by simp [File.available, h]), if_neg hleft]

end Head

variable {a : Asset} {c : MjpegCodec} {setting : Int32} {pre : List (List UInt8)}

/-- The player's counters when `i` frames of pass `m` are handed over and each pass
    before it handed over `pre`. -/
structure Counters (a : Asset) (c : MjpegCodec) (setting : Int32) (pre : List (List UInt8))
    (m i : Nat) (d : MjpegDriver) : Prop where
  moving : d.isImage = false
  asset : d.animFile.asset = a
  setting : d.repeatCount = setting
  pass : d.currentRepeat = UInt32.ofNat m
  count : d.currentFrames = UInt32.ofNat i
  log : d.log = ((List.replicate m pre).flatten ++ (c.frames a.bytes).take i).map .handed

/-- The player between two calls, `i` frames into pass `m`. -/
structure Midway (a : Asset) (c : MjpegCodec) (setting : Int32) (pre : List (List UInt8))
    (m i : Nat) (d : MjpegDriver) : Prop extends Going d, Counters a c setting pre m i d where
  decoder : d.decoder = some (afterFrames c a.bytes i).1
  rest : d.animFile.rest = (afterFrames c a.bytes i).2

/-- A call whose loop head leaves it `i` frames into pass `m`, with frame `i` to read
    next, hands that frame over. -/
theorem playFrame_midway {ticks : Nat → Tick} {d d₁ : MjpegDriver} {m i : Nat}
    {data : List UInt8} {c₁ : MjpegCodec} (hfits : c.bufRead ≤ 1024) (hd : Going d)
    (hi : d.isImage = false)
    (hhead : ({ d with locked := true } : MjpegDriver).loopHead = .play d₁)
    (hcount : Counters a c setting pre m i d₁) (hc : d₁.decoder = some c₁)
    (hread : c₁.readFrame (ticks 0).alloc d₁.animFile.rest =
      (some data, afterFrames c a.bytes (i + 1)))
    (hframe : (c.frames a.bytes)[i]? = some data)
    (hskip : Event.skipped data ∉ (d.playFrame ticks).driver.log) :
    ∃ d', d.playFrame ticks = .returns .normal d' ∧ Midway a c setting pre m (i + 1) d' := by
  refine ⟨_, playFrame_hands hd.toSound hd.playing hi hhead hc hread hskip, ?_⟩
  -- `Going` asks for a window within the buffer, which `read_frame` leaves
  have hb := afterFrames_bounded (m := c.readBuf) a.bytes ⟨hfits, fun _ _ => rfl⟩ (i + 1)
  -- the frame that is handed over is the next one of the asset
  have hlog : (c.frames a.bytes).take (i + 1) = (c.frames a.bytes).take i ++ [data] := by
    rw [List.take_add_one, hframe]; rfl
  exact
    { unlocked := rfl
      fits := fun c' hc' => by simp only [countFrame_decoder] at hc'; cases hc'; exact hb.fits
      playing := by
        simp only [countFrame_playing]
        exact (loopHead_play hhead (hd.inLoop hd.playing)).playing
      moving := by simp only [countFrame_isImage]; exact hcount.moving
      asset := by simp only [countFrame_animFile]; exact hcount.asset
      setting := by simp only [countFrame_repeatCount]; exact hcount.setting
      pass := by simp only [countFrame_currentRepeat]; exact hcount.pass
      count := by
        simp only [countFrame_currentFrames, UInt32.ofNat_add]
        exact congrArg (· + 1) hcount.count
      log := by
        simp only [countFrame_log, MjpegDriver.logged, MjpegDriver.afterRead, hcount.log, hlog,
          List.map_append, List.append_assoc, List.map_cons, List.map_nil]
      decoder := by simp only [countFrame_decoder]; rfl
      rest := by simp only [countFrame_animFile]; rfl }

/-- Inside a pass a call hands over the next frame. -/
theorem Midway.next {ticks : Nat → Tick} {d : MjpegDriver} {m i : Nat} {data : List UInt8}
    (h : Midway a c setting pre m i d) (hfits : c.bufRead ≤ 1024)
    (halloc : (ticks 0).alloc = fun _ => true)
    (hrest : (afterFrames c a.bytes i).2 ≠ []) (hframe : (c.frames a.bytes)[i]? = some data)
    (hskip : Event.skipped data ∉ (d.playFrame ticks).driver.log) :
    ∃ d', d.playFrame ticks = .returns .normal d' ∧ Midway a c setting pre m (i + 1) d' := by
  have hhead : ({ d with locked := true } : MjpegDriver).loopHead =
      .play { d with locked := true } :=
    loopHead_of_rest (by rw [← h.rest] at hrest; exact hrest)
  have hlt := (List.getElem?_eq_some_iff.mp hframe).1
  have hat : frameAt c a.bytes i = some data := by
    rw [frameAt_eq_getElem? _ hfits (Nat.le_of_lt hlt), hframe]
  have hread := afterFrames_succ hat
  rw [← halloc, ← h.rest] at hread
  exact playFrame_midway hfits h.toGoing h.moving hhead
    ⟨h.moving, h.asset, h.setting, h.pass, h.count, h.log⟩ h.decoder hread hframe hskip

/-- The passes that are left, as numbers. -/
theorem repeatsLeft_iff {d : MjpegDriver} {m : Nat} (hset : 0 ≤ d.repeatCount.toInt)
    (hpass : d.currentRepeat = UInt32.ofNat m) (hm : m < 2 ^ 32) :
    d.repeatsLeft = true ↔ m < d.repeatCount.toInt.toNat := by
  -- `-1` would repeat for ever
  have hne : d.repeatCount ≠ -1 := by
    intro h; rw [h] at hset; exact absurd hset (by decide)
  -- a setting that is not negative is compared as the number it is
  have hnat : d.repeatCount.toUInt32.toNat = d.repeatCount.toInt.toNat := by
    have h : d.repeatCount.toInt = d.repeatCount.toBitVec.toInt := rfl
    have h' : d.repeatCount.toUInt32.toNat = d.repeatCount.toBitVec.toNat := rfl
    rw [h', h]
    rw [h, BitVec.toInt_eq_toNat_cond] at hset
    rw [BitVec.toInt_eq_toNat_cond]
    omega
  simp only [MjpegDriver.repeatsLeft, Bool.or_eq_true, beq_iff_eq, hne, false_or,
    decide_eq_true_eq, UInt32.lt_iff_toNat_lt, hnat, hpass, UInt32.toNat_ofNat_of_lt' hm]

/-- A new pass starts with the first frame again. -/
theorem Midway.rewind {ticks : Nat → Tick} {d : MjpegDriver} {m e : Nat} {data : List UInt8}
    (h : Midway a c setting ((c.frames a.bytes).take e) m e d) (hfits : c.bufRead ≤ 1024)
    (hindex : c.inputIndex = 0) (halloc : (ticks 0).alloc = fun _ => true)
    (hused : (afterFrames c a.bytes e).2 = []) (hset : 0 ≤ setting.toInt)
    (hm : m < setting.toInt.toNat) (hm' : m < 2 ^ 32) (he : e < 2 ^ 32) (hone : e ≠ 1)
    (hlen : 1024 ≤ a.bytes.length)
    (hframe : (c.frames a.bytes)[0]? = some data)
    (hskip : Event.skipped data ∉ (d.playFrame ticks).driver.log) :
    ∃ d', d.playFrame ticks = .returns .normal d' ∧
      Midway a c setting ((c.frames a.bytes).take e) (m + 1) 1 d' := by
  -- the counter has not wrapped round to one
  have hcount : d.currentFrames ≠ 1 := by
    rw [h.count]
    intro heq
    have := congrArg UInt32.toNat heq
    rw [UInt32.toNat_ofNat_of_lt' he] at this
    exact hone this
  have hleft : d.repeatsLeft = true :=
    (repeatsLeft_iff (by rw [h.setting]; exact hset) h.pass hm').mpr (by rw [h.setting]; exact hm)
  have hhead := loopHead_rewind (d := { d with locked := true }) (h.rest.trans hused) hleft hcount
  have hat : frameAt c a.bytes 0 = some data := by
    rw [frameAt_eq_getElem? _ hfits (Nat.zero_le _), hframe]
  -- the cells behind the window are the same before and after the passes
  have hstart : Bounded c.readBuf c.readBuf c.bufRead := ⟨hfits, fun _ _ => rfl⟩
  have hfirst := afterFrames_succ hat
  -- the rewound codec reads the first frame as the new one did
  have hread : (afterFrames c a.bytes e).1.resetInputStatus.readFrame (ticks 0).alloc a.bytes =
      (some data, afterFrames c a.bytes (0 + 1)) := by
    rw [← hfirst, halloc,
      readFrame_resetInputStatus (afterFrames_bounded a.bytes hstart e) hstart hlen,
      readFrame_resetInputStatus_self hindex]
    simp only [afterFrames]
  refine playFrame_midway hfits h.toGoing h.moving hhead ?_ (by rw [h.decoder]; rfl)
    (by dsimp only [File.seekStart, File.openAsset]; rw [h.asset]; exact hread) hframe hskip
  exact
    { moving := h.moving
      asset := h.asset
      setting := h.setting
      pass := by
        dsimp only
        rw [h.pass, UInt32.ofNat_add]; rfl
      count := rfl
      log := by
        dsimp only
        rw [h.log, List.replicate_succ', List.flatten_append, List.flatten_singleton,
          List.take_zero, List.append_nil] }

/-- After the only frame of a still image nothing more is handed over. -/
theorem Midway.image {ticks : Nat → Tick} {d : MjpegDriver} {m : Nat}
    (h : Midway a c setting pre m 1 d) (hused : (afterFrames c a.bytes 1).2 = [])
    (hset : 0 ≤ setting.toInt) (hm : m < setting.toInt.toNat) (hm' : m < 2 ^ 32) :
    ∃ d', d.playFrame ticks = .returns .normal d' ∧ Going d' ∧ d'.isImage = true := by
  have hleft : d.repeatsLeft = true :=
    (repeatsLeft_iff (by rw [h.setting]; exact hset) h.pass hm').mpr (by rw [h.setting]; exact hm)
  have hhead := loopHead_image (d := { d with locked := true }) (h.rest.trans hused) hleft h.count
  rw [playFrame_eq h.unlocked h.playing h.moving]
  unfold MjpegDriver.playLoop MjpegDriver.playRound
  rw [hhead]
  exact ⟨_, rfl, ⟨⟨rfl, h.fits⟩, h.playing⟩, rfl⟩

/-- After the last pass the call takes the complete branch. -/
theorem Midway.completes (ticks : Nat → Tick) {d : MjpegDriver} {e : Nat}
    (h : Midway a c setting ((c.frames a.bytes).take e) setting.toInt.toNat e d)
    (hused : (afterFrames c a.bytes e).2 = []) (hset : 0 ≤ setting.toInt)
    (hm : setting.toInt.toNat < 2 ^ 32) :
    ∃ d', d.playFrame ticks = .blocked d' ∧
      d'.log = (List.replicate (setting.toInt.toNat + 1) ((c.frames a.bytes).take e)).flatten.map
        .handed ++ [.ending .complete] := by
  -- the counter of the passes has come to the setting
  have hleft : ¬ d.repeatsLeft = true := by
    rw [repeatsLeft_iff (by rw [h.setting]; exact hset) h.pass hm, h.setting]
    exact Nat.lt_irrefl _
  have hhead := loopHead_finish (d := { d with locked := true }) (h.rest.trans hused) hleft
  refine ⟨_, playFrame_completes h.toSound h.playing h.moving hhead, ?_⟩
  dsimp only [MjpegDriver.logged]
  rw [h.log, List.replicate_succ', List.flatten_append, List.flatten_singleton]

/-- If bytes are left behind the last frame, the call after it takes the error branch. -/
theorem Midway.fails (ticks : Nat → Tick) {d : MjpegDriver} {m : Nat}
    (h : Midway a c setting pre m (c.frames a.bytes).length d) (hfits : c.bufRead ≤ 1024)
    (halloc : (ticks 0).alloc = fun _ => true)
    (hrest : (afterFrames c a.bytes (c.frames a.bytes).length).2 ≠ []) :
    ∃ d', d.playFrame ticks = .blocked d' ∧ d'.log = d.log ++ [.ending .error] := by
  have hhead : ({ d with locked := true } : MjpegDriver).loopHead =
      .play { d with locked := true } :=
    loopHead_of_rest (by rw [← h.rest] at hrest; exact hrest)
  have hat := frameAt_eq_getElem? a.bytes hfits (Nat.le_refl _)
  rw [List.getElem?_eq_none (Nat.le_refl _)] at hat
  rcases hread : (afterFrames c a.bytes (c.frames a.bytes).length).1.readFrame (ticks 0).alloc
    d.animFile.rest with ⟨data, c', rest⟩
  -- there is no frame behind the last one
  have hnone : data = none := by
    rw [halloc, h.rest] at hread
    rw [← hat]
    unfold frameAt
    rw [hread]
  subst hnone
  exact ⟨_, playFrame_fails h.toSound h.playing h.moving hhead h.decoder hread, rfl⟩

end Passes

/-! ## Playing a bound file -/

/-- A player that has just bound `a`, with the codec `c`. -/
structure JustBound (a : Asset) (c : MjpegCodec) (d : MjpegDriver) : Prop extends Going d where
  moving : d.isImage = false
  file : d.animFile = .openAsset a
  decoder : d.decoder = some c
  index : c.inputIndex = 0
  empty : c.bufRead = 0
  pass : d.currentRepeat = 0
  count : d.currentFrames = 0
  log : d.log = []

/-- A pass hands over `e` frames: the file is used up after frame `e` and not before. -/
structure PassOf (a : Asset) (c : MjpegCodec) (e : Nat) : Prop where
  pos : 0 < e
  le : e ≤ (c.frames a.bytes).length
  inside : ∀ i, i < e → (afterFrames c a.bytes i).2 ≠ []
  used : (afterFrames c a.bytes e).2 = []

/-- Some number of calls, all of which return `normal`, lead to a state with `P`. -/
def Reached (ticks : Nat → Nat → Tick) (d : MjpegDriver) (P : MjpegDriver → Prop) : Prop :=
  ∃ n d', d.playRoutine ticks n = .returns .normal d' ∧ P d'

section Playing

variable {a : Asset} {c : MjpegCodec} {ticks : Nat → Nat → Tick} {d : MjpegDriver} {e : Nat}

/-- The codec's window is within its buffer. -/
theorem JustBound.bounded (hd : JustBound a c d) : c.bufRead ≤ 1024 := by
  rw [hd.empty]; decide

/-- All bytes of the asset are pending. -/
theorem JustBound.pendingAfter_zero (hd : JustBound a c d) :
    pendingAfter c a.bytes 0 = a.bytes.length := by
  simp [pendingAfter, afterFrames, MjpegCodec.pending, hd.empty]

/-- In front of the first frame of the first pass. -/
theorem JustBound.midway (hd : JustBound a c d) (pre : List (List UInt8)) :
    Midway a c d.repeatCount pre 0 0 d :=
  { hd.toGoing with
    moving := hd.moving
    asset := by rw [hd.file]; rfl
    setting := rfl
    pass := hd.pass
    count := hd.count
    log := hd.log
    decoder := hd.decoder
    rest := by rw [hd.file]; rfl }

/-- One more call. -/
theorem playRoutine_succ {n : Nat} {status : PlayStatus} {d' : MjpegDriver}
    (h : d.playRoutine ticks n = .returns status d') :
    d.playRoutine ticks (n + 1) = d'.playFrame (ticks n) := by
  rw [MjpegDriver.playRoutine, h]; rfl

/-- One more call of a run that is on time. -/
theorem Reached.call {P Q : MjpegDriver → Prop} (hon : OnTime ticks d) (h : Reached ticks d P)
    (hcall : ∀ (t : Nat → Tick) d', P d' → (t 0).alloc = (fun _ => true) →
      (∀ data, Event.skipped data ∉ (d'.playFrame t).driver.log) →
      ∃ d'', d'.playFrame t = .returns .normal d'' ∧ Q d'') : Reached ticks d Q := by
  obtain ⟨n, d', hrun, hP⟩ := h
  have hnext := playRoutine_succ hrun
  obtain ⟨d'', hplay, hQ⟩ := hcall (ticks n) d' hP (hon.alloc n 0) fun data => by
    rw [← hnext]; exact hon.noSkip (n + 1) data
  exact ⟨n + 1, d'', by rw [hnext, hplay], hQ⟩

variable {setting : Int32} {pre : List (List UInt8)} {m i j : Nat}

/-- As long as bytes are left, the frames of a pass are handed over one by one. -/
theorem Reached.inside (hon : OnTime ticks d) (hfits : c.bufRead ≤ 1024)
    (hrest : ∀ k, i ≤ k → k < j → (afterFrames c a.bytes k).2 ≠ [])
    (hj : j ≤ (c.frames a.bytes).length) (hij : i ≤ j)
    (h : Reached ticks d (Midway a c setting pre m i)) :
    Reached ticks d (Midway a c setting pre m j) := by
  -- one call for each frame from `i` to `j`
  induction hij with
  | refl => exact h
  | @step j hij ih =>
    apply Reached.call hon (ih (fun k hk hlt => hrest k hk (Nat.lt_succ_of_lt hlt)) (by omega))
    intro t d' hmid halloc hskip
    exact hmid.next hfits halloc (hrest j hij (Nat.lt_succ_self j))
      (List.getElem?_eq_getElem (show j < (c.frames a.bytes).length by omega)) (hskip _)

/-- A file of which more than one frame fits into a pass fills the window. -/
theorem PassOf.length_le (hpass : PassOf a c e) (hd : JustBound a c d) (he : 2 ≤ e) :
    1024 ≤ a.bytes.length := by
  have hframe := frameAt_eq_getElem? a.bytes hd.bounded (Nat.zero_le _)
  rw [List.getElem?_eq_getElem (show 0 < (c.frames a.bytes).length by have := hpass.le; omega)]
    at hframe
  -- a first pass that goes on after a frame has bytes left behind a full window
  have hmore := (not_congr (afterFrames_rest_eq_nil_iff hd.bounded hframe)).mp
    (hpass.inside 1 (by omega))
  have hle := pendingAfter_add_le a.bytes hd.bounded (Nat.zero_le 1)
    (show 1 ≤ (c.frames a.bytes).length by have := hpass.le; omega)
  rw [hd.pendingAfter_zero] at hle
  rw [Nat.zero_add] at hmore
  omega

/-- Every pass ends after the same `e` frames. -/
theorem reached_pass (hd : JustBound a c d) (hon : OnTime ticks d) (hpass : PassOf a c e)
    (hset : 0 ≤ d.repeatCount.toInt) (hr : d.repeatCount.toInt.toNat < 2 ^ 32)
    (hone : m ≠ 0 → e ≠ 1) (hm : m ≤ d.repeatCount.toInt.toNat) :
    Reached ticks d (Midway a c d.repeatCount ((c.frames a.bytes).take e) m e) := by
  -- a pass has no more frames than bytes, so that the counter of the frames does not wrap
  have hle : e ≤ a.bytes.length := by
    have := pendingAfter_add_le _ hd.bounded (Nat.zero_le e) hpass.le
    rw [hd.pendingAfter_zero] at this
    omega
  induction m with
  | zero =>
    exact Reached.inside hon hd.bounded (fun k _ hk => hpass.inside k hk) hpass.le (Nat.zero_le e)
      ⟨0, d, rfl, hd.midway _⟩
  | succ m ih =>
    have hsize := a.size_lt
    have hpos := hpass.pos
    have hne : e ≠ 1 := hone (Nat.succ_ne_zero m)
    have hend := ih (fun _ => hne) (by omega)
    -- the call that rewinds plays the first frame of the next pass
    have hfirst : Reached ticks d
        (Midway a c d.repeatCount ((c.frames a.bytes).take e) (m + 1) 1) := by
      apply hend.call hon
      intro t d' hmid halloc hskip
      exact hmid.rewind hd.bounded hd.index halloc hpass.used hset (by omega) (by omega) (by omega)
        hne (hpass.length_le hd (by omega))
        (List.getElem?_eq_getElem (show 0 < (c.frames a.bytes).length by have := hpass.le; omega))
        (hskip _)
    exact hfirst.inside hon hd.bounded (fun k _ hk => hpass.inside k hk) hpass.le (by omega)

/-- The run of a player whose passes have `e` frames. -/
theorem routine_passes (hd : JustBound a c d) (hon : OnTime ticks d) (hpass : PassOf a c e)
    (hset : 0 ≤ d.repeatCount.toInt) (hone : d.repeatCount.toInt.toNat ≠ 0 → e ≠ 1) :
    ∃ n d', d.playRoutine ticks n = .blocked d' ∧
      d'.log = (List.replicate (d.repeatCount.toInt.toNat + 1)
        ((c.frames a.bytes).take e)).flatten.map .handed ++ [.ending .complete] := by
  -- the counter of the passes does not wrap either
  have hr : d.repeatCount.toInt.toNat < 2 ^ 32 := by
    have := Int32.toInt_lt d.repeatCount
    omega
  obtain ⟨n, d', hrun, hmid⟩ := reached_pass hd hon hpass hset hr hone (Nat.le_refl _)
  obtain ⟨d'', hplay, hlog⟩ := hmid.completes (ticks n) hpass.used hset hr
  exact ⟨n + 1, d'', by rw [playRoutine_succ hrun, hplay], hlog⟩

/-- A still image with repeats left is never finished. -/
theorem routine_image (hd : JustBound a c d) (hon : OnTime ticks d) (hpass : PassOf a c 1)
    (hset : 0 ≤ d.repeatCount.toInt) (hr : d.repeatCount.toInt.toNat ≠ 0) (n : Nat) :
    ∃ status d', d.playRoutine ticks n = .returns status d' := by
  have hone := Reached.inside (m := 0) hon hd.bounded (fun k _ hk => hpass.inside k hk) hpass.le
    (Nat.zero_le 1) ⟨0, d, rfl, hd.midway []⟩
  obtain ⟨n₀, d₀, hrun, hgoing, himage⟩ := hone.call (Q := fun d' => Going d' ∧ d'.isImage = true)
    hon fun t d' hmid _ _ => hmid.image hpass.used hset (Nat.pos_of_ne_zero hr) (by decide)
  -- from here on every call returns at once
  have hstays : ∀ k, ∃ d', d.playRoutine ticks (n₀ + k) = .returns .normal d' ∧
      Going d' ∧ d'.isImage = true := by
    intro k
    induction k with
    | zero => exact ⟨d₀, hrun, hgoing, himage⟩
    | succ k ih =>
      obtain ⟨d', hrun', hgoing', himage'⟩ := ih
      rw [← Nat.add_assoc, playRoutine_succ hrun']
      simp only [MjpegDriver.playFrame, hgoing'.unlocked, hgoing'.playing, himage',
        Bool.false_eq_true, if_false, if_true]
      exact ⟨_, rfl, ⟨⟨rfl, hgoing'.fits⟩, rfl⟩, rfl⟩
  -- a run that stops stays where it is, but the one above goes on for ever
  by_contra hend
  simp only [not_exists] at hend
  obtain ⟨d', hrun', -⟩ := hstays n
  rw [playRoutine_stuck (Nat.le_add_left n n₀) hend] at hrun'
  exact hend _ _ hrun'

/-- The first frame after which the file is used up. -/
theorem exists_passOf (hne : a.bytes ≠ []) :
    (∃ e, PassOf a c e) ∨
      ∀ i, i ≤ (c.frames a.bytes).length → (afterFrames c a.bytes i).2 ≠ [] := by
  by_cases h : ∃ e, e ≤ (c.frames a.bytes).length ∧ (afterFrames c a.bytes e).2 = []
  · left
    classical
    -- a pass ends at the first frame that leaves no bytes
    refine ⟨Nat.find h, ?_, (Nat.find_spec h).1, fun i hi hnil => ?_, (Nat.find_spec h).2⟩
    · rw [Nat.find_pos]
      exact fun h₀ => hne h₀.2
    · have hle := (Nat.find_spec h).1
      exact Nat.find_min h hi ⟨by omega, hnil⟩
  · right
    intro i hi hnil
    exact h ⟨i, hi, hnil⟩

/-- The frames of `n` passes. -/
theorem flatten_replicate_length (n : Nat) (l : List (List UInt8)) :
    (List.replicate n l).flatten.length = n * l.length := by
  simp

/-- A player that has just bound a file of at least two frames plays all of it
    `r + 1` times exactly if the read that follows the last frame, and no earlier
    one, uses the file up. -/
theorem playsRepeated_iff_passOf (hd : JustBound a c d) (hset : 0 ≤ d.repeatCount.toInt)
    (hne : a.bytes ≠ []) (hn : 2 ≤ (c.frames a.bytes).length) :
    PlaysRepeated d (c.frames a.bytes) d.repeatCount.toInt.toNat ↔
      PassOf a c (c.frames a.bytes).length := by
  constructor
  · intro hplays
    have hon := onTime_zero hd.toGoing hd.log
    obtain ⟨n, hlog⟩ := hplays _ hon
    -- the run ends, and how it does tells how many frames a pass has
    have hending : Event.ending .complete ∈
        (d.playRoutine (fun _ _ => ⟨fun _ => true, 0, 0⟩) n).driver.log := by
      rw [hlog]; simp
    rcases exists_passOf (c := c) hne with ⟨e, hpass⟩ | hrest
    · by_cases himage : d.repeatCount.toInt.toNat ≠ 0 ∧ e = 1
      · -- the first frame is taken for a still image: the run never ends
        obtain ⟨hr, rfl⟩ := himage
        obtain ⟨status, d', hrun⟩ := routine_image hd hon hpass hset hr n
        rw [hrun] at hending
        have := (playRoutine_going hd.toGoing hrun).2 _ hending
        rw [hd.log] at this
        exact nomatch this
      · -- the run ends after passes of `e` frames, so `e` is the number of frames
        obtain ⟨n', d', hrun, hlog'⟩ := routine_passes hd hon hpass hset
          (fun hr he => himage ⟨hr, he⟩)
        have heq := playRoutine_ending hd.toGoing hd.log hrun hending
        rw [hlog, hlog', List.append_cancel_right_eq] at heq
        have hlen := congrArg List.length heq
        simp only [List.length_map, flatten_replicate_length, List.length_take] at hlen
        have := Nat.eq_of_mul_eq_mul_left (Nat.succ_pos _) hlen
        have hle := hpass.le
        rw [show (c.frames a.bytes).length = e by omega]
        exact hpass
    · -- bytes are left behind the last frame: the run ends with an error
      obtain ⟨n', d', hrun, hmid⟩ := Reached.inside (m := 0) (j := (c.frames a.bytes).length)
        hon hd.bounded (fun k _ hk => hrest k (by omega)) (Nat.le_refl _) (Nat.zero_le _)
        ⟨0, d, rfl, hd.midway []⟩
      obtain ⟨d'', hplay, hlog'⟩ := hmid.fails (fun _ => ⟨fun _ => true, 0, 0⟩)
        hd.bounded rfl (hrest _ (Nat.le_refl _))
      have heq := playRoutine_ending (n := n' + 1) hd.toGoing hd.log
        (by rw [playRoutine_succ hrun, hplay]) hending
      rw [hlog, hlog'] at heq
      have := congrArg List.getLast? heq
      simp at this
  · intro hpass ticks hon
    obtain ⟨n, d', hrun, hlog⟩ := routine_passes hd hon hpass hset (fun _ => by omega)
    refine ⟨n, ?_⟩
    rw [hrun]
    rw [List.take_length] at hlog
    exact hlog

/-- The file is used up with the last frame exactly if at most a window of it lies
    behind the last frame and more than a window behind the one before. -/
theorem passOf_length_iff (hfits : c.bufRead ≤ 1024) (hne : a.bytes ≠ [])
    (hn : 2 ≤ (c.frames a.bytes).length) :
    PassOf a c (c.frames a.bytes).length ↔
      1024 < pendingAfter c a.bytes ((c.frames a.bytes).length - 1) ∧
        pendingAfter c a.bytes (c.frames a.bytes).length ≤ 1024 := by
  -- the file is used up as soon as what is pending fits the window
  have hnil : ∀ i, i < (c.frames a.bytes).length →
      ((afterFrames c a.bytes (i + 1)).2 = [] ↔ pendingAfter c a.bytes (i + 1) ≤ 1024) := by
    intro i hi
    have hframe := frameAt_eq_getElem? a.bytes hfits (Nat.le_of_lt hi)
    rw [List.getElem?_eq_getElem hi] at hframe
    exact afterFrames_rest_eq_nil_iff hfits hframe
  -- the last two frames decide
  have hlast := hnil ((c.frames a.bytes).length - 1) (by omega)
  have hprev := hnil ((c.frames a.bytes).length - 2) (by omega)
  rw [show (c.frames a.bytes).length - 1 + 1 = (c.frames a.bytes).length by omega] at hlast
  rw [show (c.frames a.bytes).length - 2 + 1 = (c.frames a.bytes).length - 1 by omega] at hprev
  constructor
  · intro hpass
    refine ⟨?_, hlast.mp hpass.used⟩
    have := mt hprev.mpr (hpass.inside _ (by omega))
    omega
  · rintro ⟨hmore, hle⟩
    refine ⟨by omega, Nat.le_refl _, fun i hi => ?_, hlast.mpr hle⟩
    cases i with
    | zero => exact hne
    | succ i =>
      -- earlier frames leave even more behind them
      have := pendingAfter_add_le a.bytes hfits
        (show i + 1 ≤ (c.frames a.bytes).length - 1 by omega) (by omega)
      rw [Ne, hnil i (by omega)]
      omega

end Playing

/-! ## From any sequence of calls -/

/-- Between calls a player without a bound file is as `reset_play_status` leaves it. -/
structure Kept (d : MjpegDriver) : Prop extends Sound d where
  still : d.playing = false → d.isImage = false
  pass : d.playing = false → d.currentRepeat = 0
  count : d.playing = false → d.currentFrames = 0
  index : d.playing = false → ∀ c, d.decoder = some c → c.inputIndex = 0
  empty : d.playing = false → ∀ c, d.decoder = some c → c.bufRead = 0

/-- While a file is bound only the lock and the window's bounds matter. -/
theorem Going.kept {d : MjpegDriver} (hd : Going d) : Kept d where
  unlocked := hd.unlocked
  fits := hd.fits
  still h := by rw [hd.playing] at h; exact nomatch h
  pass h := by rw [hd.playing] at h; exact nomatch h
  count h := by rw [hd.playing] at h; exact nomatch h
  index h := by rw [hd.playing] at h; exact nomatch h
  empty h := by rw [hd.playing] at h; exact nomatch h

/-- The driver as constructed. -/
theorem kept_init : Kept {} where
  unlocked := rfl
  fits _ h := nomatch h
  still _ := rfl
  pass _ := rfl
  count _ := rfl
  index _ _ h := nomatch h
  empty _ _ h := nomatch h

/-- `stop` leaves the driver ready for another file. -/
theorem stop_kept {d d' : MjpegDriver} (hd : Kept d) (h : d.stop = .returns () d') : Kept d' := by
  unfold MjpegDriver.stop at h
  split at h
  · -- the lock is free, or `stop` would not have returned
    rw [if_neg (by rw [hd.unlocked]; decide)] at h
    dsimp only at h
    cases hc : d.decoder with
    -- without a decoder `stop()` does not return
    | none => rw [hc] at h; exact nomatch h
    | some c =>
      rw [hc] at h
      cases h
      exact
        { unlocked := hd.unlocked
          fits := fun c' hc' => by cases hc'; simp [MjpegCodec.resetInputStatus]
          still := fun _ => rfl
          pass := fun _ => rfl
          count := fun _ => rfl
          index := fun _ c' hc' => by cases hc'; rfl
          empty := fun _ c' hc' => by cases hc'; rfl }
  · cases h; exact hd

/-- Every call keeps the invariant. -/
theorem exec_kept {call : Call} {d d' : MjpegDriver} (hd : Kept d)
    (h : call.exec d = .returns () d') : Kept d' := by
  cases call with
  | prepareResource behind =>
    cases h
    exact
      { hd with
        fits := fun c hc => by cases hc; simp [MjpegCodec.fresh]
        index := fun _ c hc => by cases hc; rfl
        empty := fun _ c hc => by cases hc; rfl }
  -- a file that is bound already is kept, and the call fails
  | animBindAssets a =>
    cases h
    unfold MjpegDriver.animBindAssets
    split
    · exact hd
    · exact Going.kept ⟨⟨hd.unlocked, hd.fits⟩, rfl⟩
  | setRepeat n => cases h; exact { hd with }
  | playFrame ticks =>
    simp only [Call.exec] at h
    rcases hout : d.playFrame ticks with ⟨status, d₁⟩ | d₁ | d₁ | d₁
    all_goals rw [hout] at h
    · cases h
      cases hp : d.playing with
      | true => exact (playFrame_going ⟨hd.toSound, hp⟩ hout).1.kept
      | false =>
        -- without a bound file the call returns at once
        simp only [MjpegDriver.playFrame, hd.unlocked, hp, Bool.false_eq_true, if_false,
          Outcome.andThen, Outcome.returns.injEq] at hout
        rw [← hout.2]
        exact
          { unlocked := rfl
            fits := hd.fits
            still := fun _ => hd.still hp
            pass := fun _ => hd.pass hp
            count := fun _ => hd.count hp
            index := fun _ => hd.index hp
            empty := fun _ => hd.empty hp }
    · cases h
    · cases h
    · cases h
  | stop => exact stop_kept hd h
  | drvActivationCb activate =>
    cases activate with
    | true => cases h; exact hd
    | false => exact stop_kept hd h

/-- So do all calls together. -/
theorem runCalls_kept (calls : List Call) {d d' : MjpegDriver} (hd : Kept d)
    (h : runCalls calls d = .returns () d') : Kept d' := by
  induction calls generalizing d with
  | nil => cases h; exact hd
  | cons call calls ih =>
    unfold runCalls at h
    rcases hout : call.exec d with ⟨_, d₁⟩ | d₁ | d₁ | d₁
    all_goals rw [hout] at h
    · exact ih (exec_kept hd hout) h
    · cases h
    · cases h
    · cases h

/-- A file bound in such a state is played from its beginning. -/
theorem animBindAssets_justBound {a : Asset} {c : MjpegCodec} {d d' : MjpegDriver} (hd : Kept d)
    (hbind : d.animBindAssets a = (true, d')) (hc : d'.decoder = some c) :
    JustBound a c d' ∧ a.bytes ≠ [] := by
  unfold MjpegDriver.animBindAssets at hbind
  split at hbind
  · simp at hbind
  · rename_i hp
    rw [Bool.not_eq_true] at hp
    simp only [Prod.mk.injEq] at hbind
    obtain ⟨havail, rfl⟩ := hbind
    constructor
    · exact
        { unlocked := hd.unlocked
          fits := hd.fits
          playing := rfl
          moving := hd.still hp
          file := rfl
          decoder := hc
          index := hd.index hp c hc
          empty := hd.empty hp c hc
          pass := hd.pass hp
          count := hd.count hp
          log := rfl }
    · intro hnil
      simp [File.available, File.openAsset, hnil] at havail

/-- After any sequence of calls and a successful `anim_bind_assets`, a file with at
    least two frames is played `r + 1` times over, when it is played on time, exactly
    if more than a window of the file lies behind the last frame but one and at most
    a window behind the last. -/
theorem playsRepeated_iff (calls : List Call) (a : Asset) {c : MjpegCodec} {d d' : MjpegDriver}
    (hrun : runCalls calls {} = .returns () d) (hbind : d.animBindAssets a = (true, d'))
    (hc : d'.decoder = some c) (hset : 0 ≤ d'.repeatCount.toInt)
    (hn : 2 ≤ (c.frames a.bytes).length) :
    PlaysRepeated d' (c.frames a.bytes) d'.repeatCount.toInt.toNat ↔
      1024 < pendingAfter c a.bytes ((c.frames a.bytes).length - 1) ∧
        pendingAfter c a.bytes (c.frames a.bytes).length ≤ 1024 := by
  obtain ⟨hd', hne⟩ := animBindAssets_justBound (runCalls_kept calls kept_init hrun) hbind hc
  rw [playsRepeated_iff_passOf hd' hset hne hn, passOf_length_iff hd'.bounded hne hn]

/-- Two frames in ten bytes. -/
def shortAsset : Asset :=
  ⟨[0xFF, 0xD8, 1, 0xFF, 0xD9, 0xFF, 0xD8, 2, 0xFF, 0xD9], by decide⟩

/-- A new player bound to `shortAsset`, with the repeat setting `n`. -/
def shortPlayer (n : Int32) : MjpegDriver :=
  (((({} : MjpegDriver).prepareResource fun _ => 0).setRepeat n).animBindAssets shortAsset).2

/-- An asset of two frames, where both sides are false. -/
theorem playsRepeated_iff_short :
    PlaysRepeated (shortPlayer 1) ((MjpegCodec.fresh fun _ => 0).frames shortAsset.bytes) 1 ↔
      1024 < pendingAfter (.fresh fun _ => 0) shortAsset.bytes 1 ∧
        pendingAfter (.fresh fun _ => 0) shortAsset.bytes 2 ≤ 1024 := by
  have hlen : ((MjpegCodec.fresh fun _ => 0).frames shortAsset.bytes).length = 2 := by
    decide +kernel
  have hbind : (((({} : MjpegDriver).prepareResource fun _ => 0).setRepeat 1).animBindAssets
      shortAsset) = (true, shortPlayer 1) := rfl
  have h := playsRepeated_iff [.prepareResource fun _ => 0, .setRepeat 1] shortAsset
    (c := .fresh fun _ => 0) rfl hbind rfl (by decide) (by rw [hlen])
  rw [hlen] at h
  exact h

/-- The first read takes the whole of `shortAsset`, so the player takes the end of
    its first frame for the end of the pass and never hands over the second. -/
theorem not_playsRepeated_short :
    ((MjpegCodec.fresh fun _ => 0).frames shortAsset.bytes).length = 2 ∧
      ¬ PlaysRepeated (shortPlayer 0)
        ((MjpegCodec.fresh fun _ => 0).frames shortAsset.bytes) 0 := by
  have hlen : ((MjpegCodec.fresh fun _ => 0).frames shortAsset.bytes).length = 2 := by
    decide +kernel
  refine ⟨hlen, fun hplays => ?_⟩
  have hkept := runCalls_kept [.prepareResource fun _ => 0, .setRepeat 0] kept_init rfl
  obtain ⟨hbound, hne⟩ :
      JustBound shortAsset (.fresh fun _ => 0) (shortPlayer 0) ∧ shortAsset.bytes ≠ [] :=
    animBindAssets_justBound hkept rfl rfl
  -- the file is used up after its first frame
  have hpass := (playsRepeated_iff_passOf hbound (by decide) hne (by rw [hlen])).mp hplays
  rw [hlen] at hpass
  exact hpass.inside 1 (by decide) (by decide +kernel)

end Ivy.Spec
