import Ivy.ForStd.Transition
import Ivy.Native.Clock
import Ivy.Spec.Playback
import Mathlib.Algebra.Group.Nat.Defs

/-!
# Frames on time

The times of the frames are compared as 32-bit numbers. As long as the start of a pass is not taken
for a missing one and the count of its frames does not overflow, the number the code has for the
time of a frame is that time modulo `2 ^ 32`. The comparison is then right exactly if the time of
the frame and its examination lie between the same two wraps of `millis()`, or the examination lies
behind a later wrap and further behind it.

## Key results

- `frame_on_time_iff`: when a frame is skipped or shown as it should be, in every run
- `runCalls_plays`: the calls of a player make such a run, with the decisions of the pass
-/

namespace Ivy.Spec

open Ivy.Native Ivy.Lts

/-! ## Passes in real time -/

/-- The real times of a frame: of the skip test, of the last test of the wait, of the end of
    the round, and of the return. -/
structure FrameTimes where
  examined : Nat
  waited : Nat
  stamped : Nat
  returned : Nat
  deriving DecidableEq, Repr

inductive PaceEvent
  | frame (t : FrameTimes)
  | rewind
  | resetPlayStatus
  deriving DecidableEq, Repr

/-- The pacing with the real start of the pass and the number of its frames so far. -/
structure Pass where
  pacing : Pacing
  start : Nat
  frames : Nat
  now : Nat
  deriving DecidableEq, Repr

def Pass.init (fps : UInt8) : Pass := ⟨.init fps, 0, 0, 0⟩

/-- The next frame is skipped. -/
def Pass.skips (h : Pass) (t : FrameTimes) : Bool := h.pacing.late (millis t.examined)

def Pass.step (h : Pass) : PaceEvent → Pass
  | .frame t =>
    { pacing := h.pacing.countFrame (millis t.stamped)
      start := if h.frames = 0 then t.stamped else h.start
      frames := h.frames + 1
      now := t.returned }
  | .rewind => { h with pacing := h.pacing.rewind, frames := 0 }
  | .resetPlayStatus => { h with pacing := h.pacing.resetPlayStatus, frames := 0 }

/-- Time does not go back, and the wait of a frame that is not skipped ends when its condition
    does. -/
def Timed (h : Pass) : PaceEvent → Prop
  | .frame t =>
    h.now ≤ t.examined ∧ t.examined ≤ t.waited ∧ t.waited ≤ t.stamped ∧ t.stamped ≤ t.returned ∧
      (h.skips t = false → h.pacing.early (millis t.waited) = false)
  | .rewind => True
  | .resetPlayStatus => True

instance (h : Pass) : (e : PaceEvent) → Decidable (Timed h e)
  | .frame _ => inferInstanceAs (Decidable (_ ∧ _ ∧ _ ∧ _ ∧ (_ → _)))
  | .rewind => isTrue trivial
  | .resetPlayStatus => isTrue trivial

/-- The steps of the player in real time. -/
def Pass.next (h : Pass) (e : PaceEvent) : Option Pass := some (h.step e)

/-- The time of the next frame. -/
def Pass.deadline (h : Pass) : Nat := h.start + h.frames * 1000 / h.pacing.fps.toNat

/-- The frame is skipped exactly if it is examined after its time, and shown no earlier. -/
def ShownOnTime (h : Pass) (t : FrameTimes) : Prop :=
  (h.skips t = true ↔ h.deadline < t.examined) ∧
    (h.skips t = false → h.deadline ≤ t.returned)

/-- The start of the pass is not at zero, and the product with the count does not overflow. -/
structure Reckoned (h : Pass) : Prop where
  start : h.start % 2 ^ 32 ≠ 0
  frames : h.frames * 1000 < 2 ^ 32

/-- The residues of the time of the frame and of its examination are in the order of the times. -/
def ResiduesInOrder (h : Pass) (t : FrameTimes) : Prop :=
  h.deadline / 2 ^ 32 = t.examined / 2 ^ 32 ∨
    h.deadline / 2 ^ 32 < t.examined / 2 ^ 32 ∧ h.deadline % 2 ^ 32 < t.examined % 2 ^ 32

instance (h : Pass) (t : FrameTimes) : Decidable (ResiduesInOrder h t) :=
  inferInstanceAs (Decidable (_ ∨ _ ∧ _))

/-- What the fields are for. The start is lost if it falls on zero. -/
structure Pass.Kept (h : Pass) : Prop where
  currentFrames : h.pacing.currentFrames = UInt32.ofNat h.frames
  noStart : h.frames = 0 → h.pacing.startMs = 0
  startMs : h.frames ≠ 0 → h.start % 2 ^ 32 ≠ 0 → h.pacing.startMs = millis h.start
  nextFrameMs : h.frames ≠ 0 → h.start % 2 ^ 32 ≠ 0 →
    h.pacing.nextFrameMs = millis h.start + UInt32.ofNat h.frames * 1000 / h.pacing.fps.toUInt32
  past : h.frames ≠ 0 → h.start ≤ h.now

/-- A pass without frames has nothing to keep but its counters. -/
theorem pass_kept_of_zero {h : Pass} (hzero : h.frames = 0) (hstart : h.pacing.startMs = 0)
    (hcount : h.pacing.currentFrames = 0) : h.Kept where
  currentFrames := by rw [hcount, hzero]; rfl
  noStart _ := hstart
  startMs hne := absurd hzero hne
  nextFrameMs hne := absurd hzero hne
  past hne := absurd hzero hne

section

variable {h : Pass}

/-- What the clock shows is the real time within the current period. -/
theorem toNat_millis (t : Nat) : (millis t).toNat = t % 2 ^ 32 := UInt32.toNat_ofNat'

/-- The clock shows zero once in every period. -/
theorem millis_eq_zero_iff {t : Nat} : millis t = 0 ↔ t % 2 ^ 32 = 0 := by
  rw [← UInt32.toNat_inj, toNat_millis, UInt32.toNat_zero]

/-- Counting a frame when the start is known. -/
theorem countFrame_of_ne {p : Pacing} (hp : p.startMs ≠ 0) (now : UInt32) :
    p.countFrame now =
      { p with
        currentFrames := p.currentFrames + 1
        nextFrameMs := p.startMs + (p.currentFrames + 1) * 1000 / p.fps.toUInt32 } := by
  simp only [Pacing.countFrame, hp, if_false]

/-- Counting the first frame of a pass. -/
theorem countFrame_of_zero {p : Pacing} (hp : p.startMs = 0) (now : UInt32) :
    p.countFrame now =
      { p with
        startMs := now
        currentFrames := p.currentFrames + 1
        nextFrameMs := now + (p.currentFrames + 1) * 1000 / p.fps.toUInt32 } := by
  simp only [Pacing.countFrame, hp, if_true]

/-- Every frame is counted, the first one of a pass as well. -/
theorem pacing_currentFrames (p : Pacing) (now : UInt32) :
    (p.countFrame now).currentFrames = p.currentFrames + 1 := by
  -- the first frame of a pass also sets the start
  by_cases hp : p.startMs = 0
  · rw [countFrame_of_zero hp]
  · rw [countFrame_of_ne hp]

/-- The next frame of a pass keeps the meaning of the fields. -/
theorem Pass.Kept.frame (hk : h.Kept) {t : FrameTimes} (ht : Timed h (.frame t)) :
    (h.step (.frame t)).Kept := by
  obtain ⟨hnow, hwait, hstamp, hreturn, -⟩ := ht
  have hcount : h.pacing.currentFrames + 1 = UInt32.ofNat (h.frames + 1) := by
    rw [hk.currentFrames, UInt32.ofNat_add]
    rfl
  by_cases hz : h.frames = 0
  · -- the first frame of the pass sets its start
    have hp := countFrame_of_zero (hk.noStart hz) (millis t.stamped)
    have hstart : (h.step (.frame t)).start = t.stamped := if_pos hz
    have hpacing : (h.step (.frame t)).pacing = h.pacing.countFrame (millis t.stamped) := rfl
    rw [hcount] at hp
    refine ⟨?_, fun hf => absurd hf (Nat.succ_ne_zero _), fun _ _ => ?_, fun _ _ => ?_, fun _ => ?_⟩
    · rw [hpacing, hp]
      rfl
    · rw [hpacing, hp, hstart]
    · rw [hpacing, hp, hstart]
      rfl
    · rw [hstart]
      exact hreturn
  · -- a later frame counts from the start that is stored, which is not zero unless the clock was
    have hstart : (h.step (.frame t)).start = h.start := if_neg hz
    have hpacing : (h.step (.frame t)).pacing = h.pacing.countFrame (millis t.stamped) := rfl
    have hp : h.start % 2 ^ 32 ≠ 0 → h.pacing.countFrame (millis t.stamped) =
        { h.pacing with
          currentFrames := UInt32.ofNat (h.frames + 1)
          nextFrameMs := h.pacing.startMs +
            UInt32.ofNat (h.frames + 1) * 1000 / h.pacing.fps.toUInt32 } := by
      intro hne
      have hms : h.pacing.startMs ≠ 0 := by
        rw [hk.startMs hz hne]
        exact fun hzero => hne (millis_eq_zero_iff.mp hzero)
      rw [countFrame_of_ne hms, hcount]
    refine ⟨(pacing_currentFrames _ _).trans hcount,
      fun hf => absurd hf (Nat.succ_ne_zero _), fun _ hne => ?_, fun _ hne => ?_, fun _ => ?_⟩
    · rw [hstart] at hne
      rw [hpacing, hp hne, hstart]
      exact hk.startMs hz hne
    · rw [hstart] at hne
      rw [hpacing, hp hne, hstart, hk.startMs hz hne]
      rfl
    · have hpast := hk.past hz
      rw [hstart]
      show h.start ≤ t.returned
      omega

/-- Every step keeps the meaning of the fields. -/
theorem Pass.Kept.step (hk : h.Kept) {e : PaceEvent} (ht : Timed h e) : (h.step e).Kept := by
  cases e with
  | frame t => exact hk.frame ht
  | rewind => exact pass_kept_of_zero rfl rfl rfl
  | resetPlayStatus => exact pass_kept_of_zero rfl rfl rfl

/-- The time of the next frame as the code has it: that of the frame, modulo `2 ^ 32`. -/
theorem Pass.Kept.toNat_nextFrameMs (hk : h.Kept) (hf : h.frames ≠ 0) (hc : Reckoned h) :
    h.pacing.nextFrameMs.toNat = h.deadline % 2 ^ 32 := by
  -- the product does not overflow, so that only the sum with the start is reduced
  have hsmall : h.frames % 2 ^ 32 = h.frames := Nat.mod_eq_of_lt (by have := hc.frames; omega)
  have hmul : (UInt32.ofNat h.frames * 1000).toNat = h.frames * 1000 := by
    rw [UInt32.toNat_mul, UInt32.toNat_ofNat', hsmall]
    exact Nat.mod_eq_of_lt hc.frames
  rw [hk.nextFrameMs hf hc.start, UInt32.toNat_add, UInt32.toNat_div, hmul, toNat_millis,
    UInt8.toNat_toUInt32, Nat.mod_add_mod]
  rfl

/-- The skip test compares the residues of the two times. -/
theorem Pass.Kept.skips_iff (hk : h.Kept) (hf : h.frames ≠ 0) (hc : Reckoned h) (t : FrameTimes) :
    h.skips t = true ↔ h.deadline % 2 ^ 32 < t.examined % 2 ^ 32 := by
  -- the test has a second condition, which fails before the first frame only
  have hstarted : h.pacing.startMs ≠ 0 := by
    rw [hk.startMs hf hc.start]
    exact fun hzero => hc.start (millis_eq_zero_iff.mp hzero)
  have hpos : 0 < h.pacing.startMs := UInt32.pos_iff_ne_zero.mpr hstarted
  simp only [Pass.skips, Pacing.late, hpos, decide_true, Bool.and_true, decide_eq_true_eq,
    UInt32.lt_iff_toNat_lt, toNat_millis, hk.toNat_nextFrameMs hf hc]

/-- A pass is never so long that a frame lies a whole period behind its examination. -/
theorem Pass.deadline_lt (hc : Reckoned h) : h.deadline < h.start + 2 ^ 32 := by
  have hle : h.frames * 1000 / h.pacing.fps.toNat ≤ h.frames * 1000 := Nat.div_le_self _ _
  have hlt := hc.frames
  unfold Pass.deadline
  omega

/-- When a frame is skipped and shown as it should be. -/
theorem Pass.Kept.shownOnTime_iff (hk : h.Kept) {t : FrameTimes} (ht : Timed h (.frame t))
    (hframes : 1 ≤ h.frames) (hc : Reckoned h) : ShownOnTime h t ↔ ResiduesInOrder h t := by
  have hskips := hk.skips_iff (by omega) hc t
  have hnext := hk.toNat_nextFrameMs (by omega) hc
  have hpast := hk.past (by omega)
  have hlong := Pass.deadline_lt hc
  obtain ⟨hnow, hwait, hstamp, hreturn, hearly⟩ := ht
  unfold ShownOnTime ResiduesInOrder
  constructor
  · -- examined a period before its time, a frame would have to lie a period behind the start
    rintro ⟨hiff, -⟩
    rw [hskips] at hiff
    omega
  · intro horder
    refine ⟨by rw [hskips]; omega, fun hshown => ?_⟩
    -- the wait has seen the time of the frame, and time does not go back
    have hlate : ¬ h.deadline % 2 ^ 32 < t.examined % 2 ^ 32 := by
      rw [← hskips, hshown]
      decide
    have hover := hearly hshown
    simp only [Pacing.early, decide_eq_false_iff_not, UInt32.lt_iff_toNat_lt, toNat_millis,
      hnext] at hover
    omega

end

/-- Every run from the start keeps the meaning of the fields. -/
theorem run_kept {fps : UInt8} {events : List PaceEvent} {h : Pass}
    (hrun : Run Pass.next Timed (.init fps) events h) : h.Kept := by
  apply hrun.invariant (I := Pass.Kept) _ (pass_kept_of_zero rfl rfl rfl)
  intro s e s' hs ht hstep
  -- every event has a step, so that the next state is the one of the event
  cases hstep
  exact hs.step ht

/-- For every pass and every frame but its first, examined at any time, in the period of its start
    or behind any number of wraps: the frame is skipped exactly if it is examined after its time,
    and otherwise shown no earlier, if and only if the residues of its time and of its examination
    are in the order of the times. -/
theorem frame_on_time_iff {fps : UInt8} (events : List PaceEvent) {h : Pass} {t : FrameTimes}
    (hrun : Run Pass.next Timed (.init fps) events h) (ht : Timed h (.frame t))
    (hframes : 1 ≤ h.frames) (hc : Reckoned h) : ShownOnTime h t ↔ ResiduesInOrder h t :=
  (run_kept hrun).shownOnTime_iff ht hframes hc

/-- The second frame of a pass that starts 30 milliseconds before a wrap of `millis()`, at 25 frames
    per second: its time and its examination lie behind the wrap. -/
theorem frame_on_time_iff_behind_wrap :
    ∃ h : Pass, Run Pass.next Timed (.init 25)
        [.frame ⟨2 ^ 32 - 40, 2 ^ 32 - 40, 2 ^ 32 - 30, 2 ^ 32 - 30⟩] h ∧
      ShownOnTime h ⟨2 ^ 32 + 5, 2 ^ 32 + 12, 2 ^ 32 + 12, 2 ^ 32 + 12⟩ := by
  have hrun : Run Pass.next Timed (.init 25)
      [.frame ⟨2 ^ 32 - 40, 2 ^ 32 - 40, 2 ^ 32 - 30, 2 ^ 32 - 30⟩]
      ((Pass.init 25).step (.frame ⟨2 ^ 32 - 40, 2 ^ 32 - 40, 2 ^ 32 - 30, 2 ^ 32 - 30⟩)) :=
    .of_exec rfl
  refine ⟨_, hrun, (frame_on_time_iff _ hrun (by decide) (by decide) ⟨by decide, by decide⟩).mpr ?_⟩
  decide

/-- A pass that starts when `millis()` is zero: the second frame is late and not skipped. A
    pass that starts 10 milliseconds before `millis()` wraps: the second frame is skipped before
    its time. -/
theorem not_frame_on_time :
    (∃ (h : Pass) (t : FrameTimes), Run Pass.next Timed (.init 25)
        [.frame ⟨2 ^ 32, 2 ^ 32, 2 ^ 32, 2 ^ 32⟩] h ∧
      Timed h (.frame t) ∧ 1 ≤ h.frames ∧ h.deadline < t.examined ∧ h.skips t = false) ∧
    (∃ (h : Pass) (t : FrameTimes), Run Pass.next Timed (.init 25)
        [.frame ⟨2 ^ 32 - 10, 2 ^ 32 - 10, 2 ^ 32 - 10, 2 ^ 32 - 10⟩] h ∧
      Timed h (.frame t) ∧ 1 ≤ h.frames ∧ t.examined ≤ h.deadline ∧ h.skips t = true) := by
  refine ⟨⟨_, ⟨2 ^ 32 + 100, 2 ^ 32 + 100, 2 ^ 32 + 100, 2 ^ 32 + 100⟩, .of_exec rfl, ?_⟩,
    ⟨_, ⟨2 ^ 32 - 5, 2 ^ 32 - 5, 2 ^ 32 - 5, 2 ^ 32 - 5⟩, .of_exec rfl, ?_⟩⟩
  all_goals decide

/-! ## The pacing of the driver

What a play_frame call does with its frames is what the pass says: it skips frames, from one pass
into the next if need be, up to the first that is not late. -/

section Driver

/-- The fields are those of the driver. -/
theorem late_pacing (d : MjpegDriver) (now : UInt32) : d.pacing.late now = d.late now := rfl

/-- Counting a frame of the driver is counting one of its pacing. -/
theorem countFrame_pacing (d : MjpegDriver) (now : UInt32) :
    (d.countFrame now).pacing = d.pacing.countFrame now := by
  unfold MjpegDriver.countFrame Pacing.countFrame
  by_cases h : d.startMs = 0 <;> simp [MjpegDriver.pacing, h]

/-- The reset of the driver is that of its pacing. -/
theorem resetPlayStatus_pacing (d : MjpegDriver) :
    d.resetPlayStatus.pacing = d.pacing.resetPlayStatus := rfl

/-- At its head the loop goes on with the pass, or starts the next one. -/
theorem loopHead_pacing {d d' : MjpegDriver} (h : d.loopHead = .play d') :
    d'.pacing = d.pacing ∨ d'.pacing = d.pacing.rewind := by
  unfold MjpegDriver.loopHead at h
  split at h
  · cases h
    exact .inl rfl
  · split at h
    · split at h
      · exact nomatch h
      · cases h
        exact .inr rfl
    · exact nomatch h

/-- A still image leaves the pacing alone. -/
theorem loopHead_image_pacing {d d' : MjpegDriver} (h : d.loopHead = .image d') :
    d'.pacing = d.pacing := by
  unfold MjpegDriver.loopHead at h
  split at h
  · exact nomatch h
  · split at h
    · split at h
      · cases h
        rfl
      · exact nomatch h
    · exact nomatch h

/-- The readings of a round are taken at these real times. -/
def ReadAt (tick : Tick) (t : FrameTimes) : Prop :=
  tick.now = millis t.examined ∧ tick.start = millis t.stamped

/-- What a `play_frame` call does to the pass: late frames are skipped, and the first one that is
    not late is shown. The call of a still image shows nothing. -/
inductive Plays : Pass → List PaceEvent → Pass → Prop
  | still (h : Pass) : Plays h [] h
  | shown {h : Pass} {t : FrameTimes} : h.skips t = false →
      Plays h [.frame t] (h.step (.frame t))
  | skipped {h h' : Pass} {t : FrameTimes} {events : List PaceEvent} : h.skips t = true →
      Plays (h.step (.frame t)) events h' → Plays h (.frame t :: events) h'
  | rewound {h h' : Pass} {events : List PaceEvent} :
      Plays (h.step .rewind) events h' → Plays h (.rewind :: events) h'

/-- A call makes the steps of its events. -/
theorem Plays.foldl_eq {h h' : Pass} {events : List PaceEvent} (hp : Plays h events h') :
    events.foldl Pass.step h = h' := by
  induction hp with
  | still h => rfl
  | shown hskip => rfl
  | skipped hskip hrest ih => exact ih
  | rewound hrest ih => exact ih

variable {d d' : MjpegDriver} {h : Pass}

/-- The frames of a loop that goes on from `d`, where it has a frame to read. -/
theorem plays_of_loopHead {d₁ : MjpegDriver} {Q : Pass → Prop} (hhead : d.loopHead = .play d₁)
    (hpaced : d.pacing = h.pacing)
    (hplays : ∀ h₁ : Pass, d₁.pacing = h₁.pacing → ∃ events h', Plays h₁ events h' ∧ Q h') :
    ∃ events h', Plays h events h' ∧ Q h' := by
  -- a rewind is an event of its own, before those of the frames
  obtain hsame | hrewind := loopHead_pacing hhead
  · exact hplays h (hsame.trans hpaced)
  · obtain ⟨events, h', hrest, hQ⟩ :=
      hplays (h.step .rewind) (hrewind.trans (congrArg Pacing.rewind hpaced))
    exact ⟨_, h', .rewound hrest, hQ⟩

/-- The loop of a call, from any driver with the pacing of the pass. -/
theorem playLoop_plays {fuel : Nat} {ticks : Nat → Tick} {times : Nat → FrameTimes}
    {status : PlayStatus} (hd : InLoop d) (hpaced : d.pacing = h.pacing)
    (hread : ∀ k, ReadAt (ticks k) (times k))
    (hret : MjpegDriver.playLoop fuel ticks d = .returns status d') :
    ∃ events h', Plays h events h' ∧ d'.pacing = h'.pacing := by
  induction fuel generalizing ticks times d h with
  | zero => cases hret
  | succ fuel ih =>
    have hround := playRound_cases hd (ticks 0)
    obtain ⟨hnow, hstart⟩ := hread 0
    -- the driver after a frame has the pacing of the pass after it
    have hcount : ∀ {d₁ : MjpegDriver} {h₁ : Pass}, d₁.pacing = h₁.pacing →
        ∀ (c : MjpegCodec) (rest : List UInt8) (e : Event),
          (((d₁.afterRead c rest).logged e).countFrame (ticks 0).start).pacing =
            (h₁.step (.frame (times 0))).pacing := by
      intro d₁ h₁ hp c rest e
      rw [countFrame_pacing, hstart]
      exact congrArg (Pacing.countFrame · (millis (times 0).stamped)) hp
    have hskips : ∀ {d₁ : MjpegDriver} {h₁ : Pass}, d₁.pacing = h₁.pacing →
        h₁.skips (times 0) = d₁.late (ticks 0).now := by
      intro d₁ h₁ hp
      rw [← late_pacing, hp, hnow]
      rfl
    unfold MjpegDriver.playLoop at hret
    rcases hout : d.playRound (ticks 0) with ⟨last, d₂⟩ | d₂ | d₂ | d₂
    · rw [hout] at hround hret
      cases hround with
      | image hhead =>
        cases hret
        exact ⟨[], h, .still h, (loopHead_image_pacing hhead).trans hpaced⟩
      | hand hhead hc hframe hlate =>
        cases hret
        -- the frame is shown, and the call returns
        refine plays_of_loopHead hhead hpaced fun h₁ hp => ?_
        exact ⟨_, _, .shown ((hskips hp).trans hlate), hcount hp _ _ _⟩
      | skip hhead hc hframe hlate =>
        -- the frame is skipped, and the loop goes on with the next readings of the clock
        have hd₂ := (playRound_again hd hout).1
        refine plays_of_loopHead hhead hpaced fun h₁ hp => ?_
        obtain ⟨events, h', hrest, hp'⟩ :=
          ih hd₂ (hcount hp _ _ _) (fun k => hread (k + 1)) hret
        exact ⟨_, h', .skipped ((hskips hp).trans hlate) hrest, hp'⟩
    all_goals
      rw [hout] at hret
      cases hret

/-- A `play_frame` call that returns has skipped the late frames, and shown the first that is not
    late. -/
theorem playFrame_plays {ticks : Nat → Tick} {times : Nat → FrameTimes} {status : PlayStatus}
    (hd : Sound d) (hpaced : d.pacing = h.pacing) (hread : ∀ k, ReadAt (ticks k) (times k))
    (hret : d.playFrame ticks = .returns status d') :
    ∃ events h', Plays h events h' ∧ d'.pacing = h'.pacing := by
  -- a call that shows nothing: the player is stopped, or has a still image
  have hstill : ∀ d₁ : MjpegDriver, d₁.pacing = d.pacing →
      ∃ events h', Plays h events h' ∧ d₁.pacing = h'.pacing := fun d₁ hp =>
    ⟨[], h, .still h, hp.trans hpaced⟩
  unfold MjpegDriver.playFrame at hret
  simp only [hd.unlocked, Bool.false_eq_true, if_false] at hret
  split at hret
  · rename_i hplaying
    split at hret
    · cases hret
      exact hstill _ rfl
    · rcases hloop : MjpegDriver.playLoop _ ticks { d with locked := true }
        with ⟨last, d₁⟩ | d₁ | d₁ | d₁
      all_goals rw [hloop] at hret
      · cases hret
        have hplays := playLoop_plays (h := h) (hd.inLoop hplaying) hpaced hread hloop
        exact hplays
      all_goals exact nomatch hret
  · cases hret
    exact hstill _ rfl

/-- `stop()` resets the pass, if a file is played. -/
theorem stop_paced (hpaced : d.pacing = h.pacing) (hret : d.stop = .returns () d') :
    d'.pacing = h.pacing ∨ d'.pacing = (h.step .resetPlayStatus).pacing := by
  unfold MjpegDriver.stop at hret
  split at hret
  · split at hret
    · exact nomatch hret
    · dsimp only at hret
      split at hret
      · exact nomatch hret
      · cases hret
        right
        rw [resetPlayStatus_pacing]
        exact congrArg Pacing.resetPlayStatus hpaced
  · cases hret
    exact .inl hpaced

/-- A call of the player with the real times of its rounds. -/
structure TimedCall where
  call : Call
  times : Nat → FrameTimes
  readAt : ∀ ticks, call = .playFrame ticks → ∀ k, ReadAt (ticks k) (times k)

/-- Calls of the player, each of which plays from the pass that the calls before it have left or
    ends it with `stop()`. -/
inductive Session : Pass → List PaceEvent → Pass → Prop
  | nil (h : Pass) : Session h [] h
  | play {h h₁ h' : Pass} {events rest : List PaceEvent} :
      Plays h events h₁ → Session h₁ rest h' → Session h (events ++ rest) h'
  | reset {h h' : Pass} {rest : List PaceEvent} :
      Session (h.step .resetPlayStatus) rest h' → Session h (.resetPlayStatus :: rest) h'

/-- The pass after a call, and the events that lead there. -/
theorem exec_session {call : TimedCall} (hd : Sound d) (hpaced : d.pacing = h.pacing)
    (hret : call.call.exec d = .returns () d') :
    ∃ events h', d'.pacing = h'.pacing ∧
      ∀ rest h'', Session h' rest h'' → Session h (events ++ rest) h'' := by
  have hsame : ∀ d₁ : MjpegDriver, d₁.pacing = h.pacing → ∃ events h', d₁.pacing = h'.pacing ∧
      ∀ rest h'', Session h' rest h'' → Session h (events ++ rest) h'' := fun d₁ hp =>
    ⟨[], h, hp, fun _ _ hrest => hrest⟩
  have hstop : d.stop = .returns () d' → ∃ events h', d'.pacing = h'.pacing ∧
      ∀ rest h'', Session h' rest h'' → Session h (events ++ rest) h'' := by
    intro hret
    -- `stop()` does nothing unless a file is played
    obtain hp | hp := stop_paced hpaced hret
    · exact hsame d' hp
    · exact ⟨[.resetPlayStatus], _, hp, fun _ _ hrest => .reset hrest⟩
  obtain ⟨call, times, hread⟩ := call
  cases call with
  | prepareResource behind | setRepeat n =>
    cases hret
    exact hsame _ hpaced
  | animBindAssets a =>
    cases hret
    apply hsame
    unfold MjpegDriver.animBindAssets
    split
    · exact hpaced
    · exact hpaced
  | playFrame ticks =>
    rcases hplay : d.playFrame ticks with ⟨status, d₁⟩ | d₁ | d₁ | d₁
    all_goals
      simp only [Call.exec, hplay, Outcome.andThen, reduceCtorEq, Outcome.returns.injEq,
        true_and] at hret
    subst hret
    obtain ⟨events, h', hplays, hp⟩ := playFrame_plays hd hpaced (hread ticks rfl) hplay
    exact ⟨events, h', hp, fun _ _ hrest => .play hplays hrest⟩
  | stop => exact hstop hret
  | drvActivationCb activate =>
    cases activate with
    | true =>
      cases hret
      exact hsame _ hpaced
    | false => exact hstop hret

/-- Every sequence of calls that return leaves the driver with the pacing of a run of passes. -/
theorem runCalls_session (calls : List TimedCall) (hd : Kept d) (hpaced : d.pacing = h.pacing)
    (hret : runCalls (calls.map TimedCall.call) d = .returns () d') :
    ∃ events h', Session h events h' ∧ d'.pacing = h'.pacing := by
  induction calls generalizing d h with
  | nil =>
    cases hret
    exact ⟨[], h, .nil h, hpaced⟩
  | cons call calls ih =>
    rw [List.map_cons, runCalls] at hret
    rcases hexec : call.call.exec d with ⟨done, d₁⟩ | d₁ | d₁ | d₁
    all_goals rw [hexec] at hret
    · obtain ⟨events, h₁, hp₁, hlink⟩ := exec_session hd.toSound hpaced hexec
      obtain ⟨rest, h', hrest, hp'⟩ := ih (exec_kept hd hexec) hp₁ hret
      exact ⟨_, h', hlink rest h' hrest, hp'⟩
    -- a call that does not return is not followed by others
    all_goals exact nomatch hret

/-- The pass after the calls is the one to which their events lead. -/
theorem Session.foldl_eq {h h' : Pass} {events : List PaceEvent} (hs : Session h events h') :
    events.foldl Pass.step h = h' := by
  induction hs with
  | nil h => rfl
  | play hplays hrest ih => rw [List.foldl_append, hplays.foldl_eq, ih]
  | reset hrest ih => exact ih

/-- After every sequence of calls to a new player, the skip test of `play_frame` is that of the pass
    which the calls have made: where the times of its events are those of a clock, it is right in
    real time for every next frame with its residues in order. -/
theorem runCalls_plays (calls : List TimedCall)
    (hret : runCalls (calls.map TimedCall.call) {} = .returns () d) :
    ∃ events h, Session (.init fps) events h ∧ d.pacing = h.pacing ∧
      (Always Pass.step Timed (.init fps) events →
        ∀ t, Timed h (.frame t) → 1 ≤ h.frames → Reckoned h → ResiduesInOrder h t →
          (d.late (millis t.examined) = true ↔ h.deadline < t.examined)) := by
  obtain ⟨events, h, hsession, hpaced⟩ := runCalls_session calls
    (d := {}) (h := .init fps) kept_init rfl hret
  refine ⟨events, h, hsession, hpaced, fun htimed t ht hframes hc horder => ?_⟩
  -- the events of the calls are a run of passes, which `run_kept` is about
  have hrun : Run Pass.next Timed (.init fps) events h := hsession.foldl_eq ▸ htimed.run
  have hshown := ((run_kept hrun).shownOnTime_iff ht hframes hc).mpr horder
  rw [← late_pacing, hpaced]
  exact hshown.1

end Driver

end Ivy.Spec
