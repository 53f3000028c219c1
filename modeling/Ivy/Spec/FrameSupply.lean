import Ivy.Spec.FramePacing

/-!
# What a call finds in the file

A file has passes of some number of frames, or a number of frames and no end. `InPass` says where in
a pass the player is. From there a `play_frame` call shows the next frame if it is not late, goes on
to later ones if it is, starts the next pass at the end of this one if repeats are left, and comes
to `stop()` if none are or if nothing can be read.

## Key results

- `InPass.playNext`: a frame of the pass is read, and shown or skipped
- `InPass.playFrame_inside`, `InPass.playFrame_rewind`: a call that shows a frame in time
- `InPass.playLoop_anyTime`: a call that may find frames late
-/

namespace Ivy.Spec

open Ivy.Native Ivy.Lts

/-! ## The frames of a file -/

/-- What a file has for the player: passes of `e` frames, the file being used up with the last of
    them and not before; or `n` frames and no end, since the file is not used up with the last. -/
inductive FileSupply
  | passes (e : Nat)
  | broken (n : Nat)
  deriving DecidableEq, Repr

def FileSupply.frames : FileSupply → Nat
  | passes e => e
  | broken n => n

/-- A codec that has read nothing since it was made or reset. Its window may hold anything. -/
structure Unread (c : MjpegCodec) : Prop where
  index : c.inputIndex = 0
  empty : c.bufRead = 0

/-- A window that is empty is within the buffer. -/
theorem Unread.fits {c : MjpegCodec} (hc : Unread c) : c.bufRead ≤ 1024 := by
  rw [hc.empty]
  decide

/-- The file has this for every codec that has read nothing. -/
def SupplyOf (a : Asset) (f : FileSupply) : Prop :=
  ∀ c, Unread c →
    match f with
    | .passes e => PassOf a c e
    | .broken n =>
      (c.frames a.bytes).length = n ∧ ∀ i, 0 < i → i ≤ n → (afterFrames c a.bytes i).2 ≠ []

section File

variable {a : Asset} {f : FileSupply} {c : MjpegCodec}

/-- A pass has no more frames than the file. -/
theorem SupplyOf.le_length (hf : SupplyOf a f) (hc : Unread c) :
    f.frames ≤ (c.frames a.bytes).length := by
  have h := hf c hc
  cases f with
  | passes e => exact h.le
  | broken n => exact Nat.le_of_eq h.1.symm

/-- A file has no more frames than bytes. -/
theorem length_frames_le (a : Asset) (hc : Unread c) :
    (c.frames a.bytes).length ≤ a.bytes.length := by
  -- every frame takes a byte at least
  have hle := pendingAfter_add_le a.bytes hc.fits (Nat.zero_le _) (Nat.le_refl _)
  have hzero : pendingAfter c a.bytes 0 = a.bytes.length := by
    simp [pendingAfter, afterFrames, MjpegCodec.pending, hc.empty]
  omega

/-- The frames of a pass can be counted. -/
theorem SupplyOf.frames_lt (hf : SupplyOf a f) (hc : Unread c) : f.frames < 2 ^ 32 :=
  Nat.lt_of_le_of_lt (Nat.le_trans (hf.le_length hc) (length_frames_le a hc)) a.size_lt

/-- As long as there are frames, the file is not used up. -/
theorem SupplyOf.rest_ne_nil (hf : SupplyOf a f) (hc : Unread c) {i : Nat} (hi : i < f.frames) :
    (afterFrames c a.bytes i).2 ≠ [] := by
  have h := hf c hc
  cases f with
  | passes e => exact h.inside i hi
  | broken n =>
    by_cases hpos : 0 < i
    · exact h.2 i hpos (Nat.le_of_lt hi)
    · -- before the first frame all of the file is left
      obtain rfl : i = 0 := Nat.eq_zero_of_not_pos hpos
      have hlen := Nat.lt_of_lt_of_le hi (Nat.le_trans (hf.le_length hc) (length_frames_le a hc))
      exact List.ne_nil_of_length_pos hlen

/-- The next frame of the pass is read. -/
theorem SupplyOf.readFrame (hf : SupplyOf a f) (hc : Unread c) {i : Nat} (hi : i < f.frames) :
    ∃ data, (afterFrames c a.bytes i).1.readFrame (fun _ => true) (afterFrames c a.bytes i).2 =
      (some data, afterFrames c a.bytes (i + 1)) := by
  have hlt := Nat.lt_of_lt_of_le hi (hf.le_length hc)
  have hat := frameAt_eq_getElem? a.bytes hc.fits (Nat.le_of_lt hlt)
  rw [List.getElem?_eq_getElem hlt] at hat
  exact ⟨_, afterFrames_succ hat⟩

end File

/-! ## One round of the loop -/

/-- The player is `i` frames into a pass of the file. -/
structure InPass (f : FileSupply) (a : Asset) (i : Nat) (d : MjpegDriver) : Prop where
  moving : d.isImage = false
  asset : d.animFile.asset = a
  count : d.currentFrames = UInt32.ofNat i
  le : i ≤ f.frames
  read : ∃ c, Unread c ∧ d.decoder = some (afterFrames c a.bytes i).1 ∧
    d.animFile.rest = (afterFrames c a.bytes i).2

section Round

variable {f : FileSupply} {a : Asset} {i e : Nat} {t : Tick} {d : MjpegDriver}

/-- The next frame of the pass is read, and skipped if it is late. -/
theorem InPass.playNext (hf : SupplyOf a f) (h : InPass f a i d) (hi : i < f.frames)
    (halloc : t.alloc = fun _ => true) :
    ∃ d', d.playNext t = .returns (if d.late t.now then none else some .normal) d' ∧
      InPass f a (i + 1) d' ∧ d'.repeatCount = d.repeatCount ∧
      d'.currentRepeat = d.currentRepeat ∧ d'.pacing = d.pacing.countFrame t.start := by
  obtain ⟨c, hc, hdecoder, hrest⟩ := h.read
  obtain ⟨data, hread⟩ := hf.readFrame hc hi
  rw [← halloc, ← hrest] at hread
  -- whether it is shown or skipped, the bookkeeping is the same
  have hafter : ∀ event, InPass f a (i + 1) (((d.afterRead (afterFrames c a.bytes (i + 1)).1
      (afterFrames c a.bytes (i + 1)).2).logged event).countFrame t.start) := fun event =>
    { moving := by rw [countFrame_isImage]; exact h.moving
      asset := by rw [countFrame_animFile]; exact h.asset
      count := by
        rw [countFrame_currentFrames, UInt32.ofNat_add]
        exact congrArg (· + 1) h.count
      le := hi
      read := ⟨c, hc, by rw [countFrame_decoder]; rfl, by rw [countFrame_animFile]; rfl⟩ }
  simp only [MjpegDriver.playNext, hdecoder, hread]
  cases d.late t.now with
  | true =>
    refine ⟨_, rfl, hafter _, ?_, ?_, countFrame_pacing _ _⟩
    · rw [countFrame_repeatCount]; rfl
    · rw [countFrame_currentRepeat]; rfl
  | false =>
    refine ⟨_, rfl, hafter _, ?_, ?_, countFrame_pacing _ _⟩
    · rw [countFrame_repeatCount]; rfl
    · rw [countFrame_currentRepeat]; rfl

/-- Inside a pass a round reads the next frame. -/
theorem InPass.playRound_inside (hf : SupplyOf a f) (h : InPass f a i d) (hi : i < f.frames)
    (halloc : t.alloc = fun _ => true) :
    ∃ d', d.playRound t = .returns (if d.late t.now then none else some .normal) d' ∧
      InPass f a (i + 1) d' ∧ d'.repeatCount = d.repeatCount ∧
      d'.currentRepeat = d.currentRepeat ∧ d'.pacing = d.pacing.countFrame t.start := by
  obtain ⟨c, hc, -, hrest⟩ := h.read
  have hhead : d.loopHead = .play d :=
    loopHead_of_rest (by rw [hrest]; exact hf.rest_ne_nil hc hi)
  simp only [MjpegDriver.playRound, hhead]
  exact h.playNext hf hi halloc

/-- The file is used up at the end of a pass. -/
theorem InPass.rest_eq_nil (hf : SupplyOf a (.passes e)) (h : InPass (.passes e) a e d) :
    d.animFile.rest = [] := by
  obtain ⟨c, hc, -, hrest⟩ := h.read
  rw [hrest]
  exact (hf c hc).used

/-- The counter tells a file of one frame from the others. -/
theorem InPass.currentFrames_eq_one_iff (hf : SupplyOf a (.passes e))
    (h : InPass (.passes e) a e d) : d.currentFrames = 1 ↔ e = 1 := by
  obtain ⟨c, hc, -, -⟩ := h.read
  have hlt : e < 2 ^ 32 := hf.frames_lt hc
  -- the counter has not wrapped, since a file has fewer frames than `2 ^ 32`
  rw [h.count, ← UInt32.toNat_inj, UInt32.toNat_ofNat_of_lt' hlt]
  rfl

/-- At the end of a pass with repeats left the first frame of the next one is shown; it is never
    late. -/
theorem InPass.playRound_rewind (hf : SupplyOf a (.passes e)) (h : InPass (.passes e) a e d)
    (hleft : d.repeatsLeft = true) (hone : e ≠ 1) (halloc : t.alloc = fun _ => true) :
    ∃ d', d.playRound t = .returns (some .normal) d' ∧ InPass (.passes e) a 1 d' ∧
      d'.repeatCount = d.repeatCount ∧ d'.currentRepeat = d.currentRepeat + 1 ∧
      d'.pacing = d.pacing.rewind.countFrame t.start := by
  obtain ⟨c, hc, hdecoder, -⟩ := h.read
  have hhead := loopHead_rewind (h.rest_eq_nil hf) hleft
    (mt (h.currentFrames_eq_one_iff hf).mp hone)
  -- the rewound driver is in front of the first frame
  have hstart : InPass (.passes e) a 0
      { d with
        currentFrames := 0, startMs := 0, currentRepeat := d.currentRepeat + 1
        animFile := d.animFile.seekStart
        decoder := d.decoder.map MjpegCodec.resetInputStatus } := {
    moving := h.moving
    asset := h.asset
    count := rfl
    le := Nat.zero_le _
    read := by
      refine ⟨(afterFrames c a.bytes e).1.resetInputStatus, ⟨rfl, rfl⟩, ?_, ?_⟩
      · show d.decoder.map MjpegCodec.resetInputStatus = _
        rw [hdecoder]
        rfl
      · show d.animFile.asset.bytes = a.bytes
        rw [h.asset] }
  obtain ⟨d', hnext, hpass, hcount, hrepeat, hpacing⟩ := hstart.playNext hf (hf c hc).pos halloc
  refine ⟨d', ?_, hpass, hcount, hrepeat, hpacing⟩
  simp only [MjpegDriver.playRound, hhead, hnext]
  rw [if_neg]
  -- the rewind has cleared the start, and without one no frame is late
  simp [MjpegDriver.late]

/-- A file of one frame is taken for a still image. -/
theorem InPass.playRound_image (hf : SupplyOf a (.passes 1)) (h : InPass (.passes 1) a 1 d)
    (hleft : d.repeatsLeft = true) :
    d.playRound t = .returns (some .normal) { d with isImage := true } := by
  simp only [MjpegDriver.playRound,
    loopHead_image (h.rest_eq_nil hf) hleft ((h.currentFrames_eq_one_iff hf).mpr rfl)]

/-- After the last pass the call waits for its own lock. -/
theorem playRound_of_finish (hd : InLoop d) (hhead : d.loopHead = .finish) :
    (d.playRound t).isBlocked = true := by
  simp only [MjpegDriver.playRound, hhead]
  rw [stop_of_locked (d := d.logged (.ending .complete)) hd.locked hd.playing]
  rfl

/-- At the end of the last pass the round comes to `stop()`. -/
theorem InPass.playRound_finish (hd : InLoop d) (hf : SupplyOf a (.passes e))
    (h : InPass (.passes e) a e d) (hleft : d.repeatsLeft = false) :
    (d.playRound t).isBlocked = true :=
  playRound_of_finish hd (loopHead_finish (h.rest_eq_nil hf) (by rw [hleft]; decide))

/-- Behind the last frame of a file that has no end nothing can be read. -/
theorem broken_readFrame {n : Nat} {c : MjpegCodec} (hf : SupplyOf a (.broken n)) (hc : Unread c) :
    ((afterFrames c a.bytes n).1.readFrame (fun _ => true) (afterFrames c a.bytes n).2).1 =
      none := by
  obtain ⟨hlen, -⟩ := hf c hc
  have hat := frameAt_eq_getElem? a.bytes hc.fits (Nat.le_refl (c.frames a.bytes).length)
  rw [List.getElem?_eq_none (Nat.le_refl _), hlen] at hat
  exact hat

/-- There the loop finishes, or goes on with a codec that finds no frame. If the file is empty, it
    is one that was reset. -/
theorem InPass.loopHead_broken {n : Nat} (hf : SupplyOf a (.broken n))
    (h : InPass (.broken n) a n d) :
    d.loopHead = .finish ∨ ∃ d₁ c, d.loopHead = .play d₁ ∧ Unread c ∧
      d₁.decoder = some (afterFrames c a.bytes n).1 ∧
      d₁.animFile.rest = (afterFrames c a.bytes n).2 := by
  obtain ⟨c, hc, hdecoder, hrest⟩ := h.read
  -- the file is empty, or what is left holds no frame
  by_cases hempty : d.animFile.rest = []
  · obtain rfl : n = 0 := by
      by_contra hpos
      exact (hf c hc).2 n (Nat.pos_of_ne_zero hpos) (Nat.le_refl n) (hrest.symm.trans hempty)
    by_cases hleft : d.repeatsLeft = true
    · -- an empty file counts no frame, and is rewound over and over
      have hhead := loopHead_rewind hempty hleft (by rw [h.count]; decide)
      refine .inr ⟨_, c.resetInputStatus, hhead, ⟨rfl, rfl⟩, ?_, congrArg Asset.bytes h.asset⟩
      show d.decoder.map MjpegCodec.resetInputStatus = _
      rw [hdecoder]
      rfl
    · exact .inl (loopHead_finish hempty hleft)
  · exact .inr ⟨d, c, loopHead_of_rest hempty, hc, hdecoder, hrest⟩

/-- So the round behind the last frame of such a file comes to `stop()` as well. -/
theorem InPass.playRound_broken {n : Nat} (hd : InLoop d) (hf : SupplyOf a (.broken n))
    (h : InPass (.broken n) a n d) (halloc : t.alloc = fun _ => true) :
    (d.playRound t).isBlocked = true := by
  obtain hfinish | ⟨d₁, c, hplay, hc, hdecoder, hrest⟩ := h.loopHead_broken hf
  · exact playRound_of_finish hd hfinish
  · -- the call fails, and `stop` waits for the lock
    have hnone := broken_readFrame hf hc
    rw [← hrest, ← halloc] at hnone
    have hd₁ := loopHead_play hplay hd
    rcases hread : (afterFrames c a.bytes n).1.readFrame t.alloc d₁.animFile.rest
      with ⟨data, c', rest⟩
    rw [hread] at hnone
    obtain rfl : data = none := hnone
    simp only [MjpegDriver.playRound, hplay, MjpegDriver.playNext, hdecoder, hread]
    rw [stop_of_locked (d := (d₁.afterRead c' rest).logged (.ending .error)) hd₁.locked hd₁.playing]
    rfl

end Round

/-! ## One call -/

section OneCall

variable {f : FileSupply} {a : Asset} {i e : Nat} {ticks : Nat → Tick} {d : MjpegDriver}

/-- The lock does not matter to the pass. -/
theorem InPass.of_locked (h : InPass f a i d) (locked : Bool) :
    InPass f a i { d with locked := locked } :=
  ⟨h.moving, h.asset, h.count, h.le, h.read⟩

/-- A call whose first round ends it. -/
theorem playFrame_of_round {d' : MjpegDriver} (hd : Going d) (himage : d.isImage = false)
    (hround : ({ d with locked := true } : MjpegDriver).playRound (ticks 0) =
      .returns (some .normal) d') :
    d.playFrame ticks = .returns .normal { d' with locked := false } := by
  rw [playFrame_eq hd.unlocked hd.playing himage]
  unfold MjpegDriver.playLoop
  rw [hround]
  rfl

/-- A first round that blocks blocks the call. -/
theorem playFrame_of_blocked (hd : Going d) (himage : d.isImage = false)
    (hround : (({ d with locked := true } : MjpegDriver).playRound (ticks 0)).isBlocked = true) :
    (d.playFrame ticks).isBlocked = true := by
  rw [playFrame_eq hd.unlocked hd.playing himage]
  -- neither the loop nor the release of the lock is reached
  exact andThen_isBlocked (andThen_isBlocked hround)

/-- The player after a call that has shown a frame, `i` frames into its pass. -/
structure CallShows (f : FileSupply) (a : Asset) (i : Nat) (d : MjpegDriver)
    (out : Outcome PlayStatus) (currentRepeat : UInt32) (pacing : Pacing) (d' : MjpegDriver) :
    Prop where
  returns : out = .returns .normal d'
  going : Going d'
  inPass : InPass f a i d'
  setting : d'.repeatCount = d.repeatCount
  repeats : d'.currentRepeat = currentRepeat
  paced : d'.pacing = pacing

/-- A frame that is not late is shown. -/
theorem InPass.playFrame_inside (hd : Going d) (hf : SupplyOf a f) (h : InPass f a i d)
    (hi : i < f.frames) (halloc : (ticks 0).alloc = fun _ => true)
    (hlate : d.late (ticks 0).now = false) :
    ∃ d', CallShows f a (i + 1) d (d.playFrame ticks) d.currentRepeat
      (d.pacing.countFrame (ticks 0).start) d' := by
  obtain ⟨d', hround, hpass, hsetting, hrepeat, hpacing⟩ :=
    (h.of_locked true).playRound_inside hf hi halloc
  rw [show ({ d with locked := true } : MjpegDriver).late (ticks 0).now = false from hlate,
    if_neg (by decide)] at hround
  have hret := playFrame_of_round hd h.moving hround
  exact ⟨_, hret, (playFrame_going hd hret).1, hpass.of_locked false, hsetting, hrepeat, hpacing⟩

/-- At the end of a pass with repeats left the first frame of the next one is shown. -/
theorem InPass.playFrame_rewind (hd : Going d) (hf : SupplyOf a (.passes e))
    (h : InPass (.passes e) a e d) (hleft : d.repeatsLeft = true) (hone : e ≠ 1)
    (halloc : (ticks 0).alloc = fun _ => true) :
    ∃ d', CallShows (.passes e) a 1 d (d.playFrame ticks) (d.currentRepeat + 1)
      (d.pacing.rewind.countFrame (ticks 0).start) d' := by
  obtain ⟨d', hround, hpass, hsetting, hrepeat, hpacing⟩ :=
    (h.of_locked true).playRound_rewind hf hleft hone halloc
  have hret := playFrame_of_round hd h.moving hround
  exact ⟨_, hret, (playFrame_going hd hret).1, hpass.of_locked false, hsetting, hrepeat, hpacing⟩

/-- With repeats left the loop shows a frame however late the frames are: at the latest the first
    one of the next pass. -/
theorem InPass.playLoop_anyTime {fuel : Nat} (hd : InLoop d) (hf : SupplyOf a (.passes e))
    (h : InPass (.passes e) a i d) (hleft : d.repeatsLeft = true) (hone : e ≠ 1)
    (halloc : ∀ k, (ticks k).alloc = fun _ => true) (hfuel : d.pending < fuel) :
    ∃ d' j, MjpegDriver.playLoop fuel ticks d = .returns .normal d' ∧
      InPass (.passes e) a j d' ∧ 0 < j ∧ d'.repeatCount = d.repeatCount ∧
      (d'.currentRepeat = d.currentRepeat ∨ d'.currentRepeat = d.currentRepeat + 1) := by
  induction fuel generalizing ticks d i with
  | zero => omega
  | succ fuel ih =>
    unfold MjpegDriver.playLoop
    -- inside the pass, or at its end
    by_cases hi : i < e
    · obtain ⟨d', hround, hpass, hsetting, hrepeat, -⟩ := h.playRound_inside hf hi (halloc 0)
      cases hlate : d.late (ticks 0).now with
      | false =>
        rw [hlate, if_neg (by decide)] at hround
        rw [hround]
        exact ⟨d', i + 1, rfl, hpass, Nat.succ_pos i, hsetting, .inl hrepeat⟩
      | true =>
        -- the frame is skipped, and the loop goes on behind it
        rw [hlate, if_pos rfl] at hround
        obtain ⟨hd', hlt⟩ := playRound_again hd hround
        have hleft' : d'.repeatsLeft = true := by
          rw [← hleft, MjpegDriver.repeatsLeft, MjpegDriver.repeatsLeft, hsetting, hrepeat]
        obtain ⟨d'', j, hloop, hpass', hj, hsetting', hrepeat'⟩ :=
          ih hd' hpass hleft' (fun k => halloc (k + 1)) (by omega)
        rw [hround]
        refine ⟨d'', j, hloop, hpass', hj, hsetting'.trans hsetting, ?_⟩
        rwa [hrepeat] at hrepeat'
    · -- the end of the pass: the first frame of the next one is not late
      obtain rfl : i = e := Nat.le_antisymm h.le (Nat.le_of_not_lt hi)
      obtain ⟨d', hround, hpass, hsetting, hrepeat, -⟩ :=
        h.playRound_rewind hf hleft hone (halloc 0)
      rw [hround]
      exact ⟨d', 1, rfl, hpass, Nat.one_pos, hsetting, .inr hrepeat⟩

/-- With passes left a call ends with a frame, however late it is. -/
theorem InPass.playFrame_anyTime (hd : Going d) (hf : SupplyOf a (.passes e))
    (h : InPass (.passes e) a i d) (hleft : d.repeatsLeft = true) (hone : e ≠ 1)
    (halloc : ∀ k, (ticks k).alloc = fun _ => true) :
    ∃ d' j, 0 < j ∧ (∃ r, (r = d.currentRepeat ∨ r = d.currentRepeat + 1) ∧
      CallShows (.passes e) a j d (d.playFrame ticks) r d'.pacing d') := by
  obtain ⟨d', j, hloop, hpass, hj, hsetting, hrepeat⟩ :=
    (h.of_locked true).playLoop_anyTime (hd.inLoop hd.playing) hf hleft hone halloc
      -- the loop has as many rounds as the file has bytes left, and one more
      (Nat.lt_succ_self _)
  have hret : d.playFrame ticks = .returns .normal { d' with locked := false } := by
    rw [playFrame_eq hd.unlocked hd.playing h.moving]
    exact congrArg (Outcome.andThen · _) hloop
  exact ⟨_, j, hj, d'.currentRepeat, hrepeat,
    hret, (playFrame_going hd hret).1, hpass.of_locked false, hsetting, rfl, rfl⟩

/-- A still image is recognised, and shown from then on. -/
theorem InPass.playFrame_image (ticks : Nat → Tick) (hd : Going d) (hf : SupplyOf a (.passes 1))
    (h : InPass (.passes 1) a 1 d) (hleft : d.repeatsLeft = true) :
    ∃ d', d.playFrame ticks = .returns .normal d' ∧ Going d' ∧ d'.isImage = true ∧
      d'.decoder = d.decoder ∧ d'.repeatCount = d.repeatCount := by
  have hret := playFrame_of_round hd h.moving
    ((h.of_locked true).playRound_image (t := ticks 0) hf hleft)
  exact ⟨_, hret, (playFrame_going hd hret).1, rfl, rfl, rfl⟩

/-- An image stays. -/
theorem playFrame_isImage (ticks : Nat → Tick) (hd : Going d) (himage : d.isImage = true) :
    ∃ d', d.playFrame ticks = .returns .normal d' ∧ Going d' ∧ d'.isImage = true ∧
      d'.decoder = d.decoder ∧ d'.repeatCount = d.repeatCount := by
  have hret : d.playFrame ticks = .returns .normal { d with locked := false } := by
    simp only [MjpegDriver.playFrame, hd.unlocked, hd.playing, himage, Bool.false_eq_true, if_false,
      if_true, Outcome.andThen]
  exact ⟨_, hret, (playFrame_going hd hret).1, himage, rfl, rfl⟩

end OneCall

end Ivy.Spec
