import Ivy.Spec.FrameSupply
import Ivy.Spec.ReadFrameCorrect

/-!
# The lock of the player

`play_frame` holds `m_lock` for the whole call, and two branches of its loop call `stop()`, which
takes `m_lock` again while `m_playing` is set: the end of the last pass, and a frame that cannot be
read. A call that comes to one of them waits for itself. Whether a call does is told by what the
file has, the number of `play_frame` calls since it was bound and the repeat setting, as long as
frames are not skipped; a `Deck` keeps these and nothing of the player. If frames may be late, the
calls return as long as there cannot have been as many passes as the setting allows.

## Key results

- `Shows.playFrame_ends`: one call returns exactly if the file has a frame for it
- `Follows.exec`: each call leaves the player as the deck tells
- `runCalls_returns_iff`: every sequence of calls
-/

namespace Ivy.Spec

open Ivy.Native Ivy.Lts

/-! ## What the calls leave of a file -/

/-- A bound file, with what has been played of it. -/
structure Showing where
  file : FileSupply
  /-- the `play_frame` calls since the file was bound -/
  played : Nat
  /-- the clock readings of these calls, if each of them has shown one frame -/
  pacing : Pacing
  /-- none of them has found its frame late -/
  onTime : Bool

namespace Showing

/-- The next call starts a new pass. -/
def newPass (s : Showing) : Bool :=
  match s.file with
  | .passes e => 0 < s.played && s.played % e == 0
  | .broken _ => false

/-- The pacing by which the next frame is late or not. -/
def paced (s : Showing) : Pacing := if s.newPass then s.pacing.rewind else s.pacing

/-- One more call. -/
def next (s : Showing) (ticks : Nat → Tick) : Showing :=
  { s with
    played := s.played + 1
    pacing := s.paced.countFrame (ticks 0).start
    onTime := s.onTime && !s.paced.late (ticks 0).now }

/-- The next call has a frame, if no frame was late: one of the pass, or one of another pass that
    the setting allows, or the still image. -/
def Supplied (s : Showing) (setting : Int32) : Prop :=
  match s.file with
  | .passes e =>
    s.played = 0 ∨ setting = -1 ∨
      if e = 1 then s.played ≠ 1 ∨ setting ≠ 0
      else s.played % e ≠ 0 ∨ UInt32.ofNat (s.played / e - 1) < setting.toUInt32
  | .broken n => s.played < n

/-- Whether the next call has a frame does not depend on the clock: there is no last pass, only one
    frame, or there cannot have been so many passes. -/
def AnyTime (s : Showing) (setting : Int32) : Prop :=
  match s.file with
  | .passes e => setting = -1 ∨ e = 1 ∨ s.played ≤ setting.toUInt32.toNat
  | .broken _ => s.played = 0

instance (s : Showing) (setting : Int32) : Decidable (s.Supplied setting) := by
  unfold Supplied
  cases s.file <;> exact inferInstance

instance (s : Showing) (setting : Int32) : Decidable (s.AnyTime setting) := by
  unfold AnyTime
  cases s.file <;> exact inferInstance

/-- The number of frames into its pass that the player is, and the number of passes before it, if
    each call has shown one frame. -/
def index (s : Showing) : Nat :=
  match s.file with
  | .passes e => if s.played = 0 then 0 else (s.played - 1) % e + 1
  | .broken _ => s.played

def pass (s : Showing) : Nat :=
  match s.file with
  | .passes e => (s.played - 1) / e
  | .broken _ => 0

end Showing

section Index

variable {e n : Nat}

/-- Inside a pass the next frame belongs to the same one. -/
theorem succ_mod_inside (h : n % e + 1 < e) : (n + 1) % e = n % e + 1 ∧ (n + 1) / e = n / e := by
  have hsplit := Nat.div_add_mod n e
  constructor
  · rw [Nat.add_mod, Nat.mod_eq_of_lt (show 1 < e by omega), Nat.mod_eq_of_lt h]
  · rw [← hsplit, Nat.add_assoc, Nat.mul_add_div (by omega), Nat.div_eq_of_lt h,
      Nat.mul_add_div (by omega), Nat.mod_div_self]

/-- Behind the last frame the next pass begins. -/
theorem succ_mod_end (h : n % e + 1 = e) : (n + 1) % e = 0 ∧ (n + 1) / e = n / e + 1 := by
  have hsplit := Nat.div_add_mod n e
  have hsum : n + 1 = e * (n / e + 1) := by
    rw [Nat.mul_add, Nat.mul_one]
    omega
  constructor
  · rw [hsum, Nat.mul_mod_right]
  · rw [hsum, Nat.mul_div_cancel_left _ (by omega)]

end Index

namespace Showing

variable {s : Showing} {e : Nat} (ticks : Nat → Tick)

/-- Inside a pass the next call goes on by one frame. -/
theorem next_of_lt (h : s.index < s.file.frames) :
    (s.next ticks).index = s.index + 1 ∧ (s.next ticks).pass = s.pass ∧ s.newPass = false := by
  obtain ⟨file, played, pacing, onTime⟩ := s
  cases file with
  | broken n => exact ⟨rfl, rfl, rfl⟩
  | passes e =>
    cases played with
    -- in front of the first frame of all
    | zero =>
      have hpos : 0 < e := h
      refine ⟨?_, ?_, rfl⟩
      · show (0 + 1 - 1) % e + 1 = 1
        rw [Nat.zero_mod]
      · rfl
    | succ m =>
      -- `m + 1` calls have been made, the last of them for frame `m % e` of its pass
      have hlt : m % e + 1 < e := h
      obtain ⟨hmod, hdiv⟩ := succ_mod_inside hlt
      refine ⟨?_, ?_, ?_⟩
      · exact congrArg (· + 1) hmod
      · exact hdiv
      · show (decide (0 < m + 1) && (m + 1) % e == 0) = false
        rw [hmod]
        simp

/-- At the end of a pass it starts the next one. -/
theorem next_of_eq (hfile : s.file = .passes e) (hpos : 0 < e) (h : s.index = e) :
    0 < s.played ∧ s.played % e = 0 ∧ s.played / e - 1 = s.pass ∧ s.newPass = true ∧
      (s.next ticks).index = 1 ∧ (s.next ticks).pass = s.pass + 1 := by
  obtain ⟨file, played, pacing, onTime⟩ := s
  cases hfile
  cases played with
  -- no frame has been shown, so that no pass is over
  | zero =>
    have hzero : 0 = e := h
    omega
  | succ m =>
    have heq : m % e + 1 = e := h
    obtain ⟨hmod, hdiv⟩ := succ_mod_end heq
    refine ⟨Nat.succ_pos m, hmod, ?_, ?_, ?_, ?_⟩
    · show (m + 1) / e - 1 = m / e
      rw [hdiv, Nat.add_sub_cancel]
    · show (decide (0 < m + 1) && (m + 1) % e == 0) = true
      rw [hmod]
      simp
    · exact congrArg (· + 1) hmod
    · exact hdiv

/-- Inside a pass the clock goes on. -/
theorem paced_of_not_newPass (h : s.newPass = false) : s.paced = s.pacing := by
  rw [paced, h, if_neg (by decide)]

/-- A new pass starts the clock again. -/
theorem paced_of_newPass (h : s.newPass = true) : s.paced = s.pacing.rewind := by
  rw [paced, h, if_pos rfl]

/-- A call that is on time follows calls that were. -/
theorem onTime_of_next {ticks : Nat → Tick} (h : (s.next ticks).onTime = true) :
    s.onTime = true ∧ s.paced.late (ticks 0).now = false := by
  simpa [next] using h

end Showing

/-- The player somewhere in a pass, as the calls have it. -/
structure Position (s : Showing) (a : Asset) (i : Nat) (d : MjpegDriver) : Prop where
  inPass : InPass s.file a i d
  first : s.played = 0 → i = 0 ∧ d.currentRepeat = 0 ∧ d.startMs = 0
  begun : 0 < s.played → 0 < i
  still : s.file = .passes 1 → s.played ≤ 1
  repeats : d.currentRepeat.toNat ≤ s.played - 1
  exact : s.onTime = true →
    i = s.index ∧ d.currentRepeat = UInt32.ofNat s.pass ∧ d.pacing = s.pacing

/-- The player shows the file: a still image, or somewhere in a pass. -/
structure Shows (s : Showing) (a : Asset) (d : MjpegDriver) : Prop extends Going d where
  state : (d.isImage = true ∧ d.decoder.isSome = true ∧ s.file = .passes 1 ∧ 2 ≤ s.played) ∨
    ∃ i, Position s a i d

/-- A file is shown with a decoder. -/
theorem Shows.decoder_isSome {s : Showing} {a : Asset} {d : MjpegDriver} (h : Shows s a d) :
    d.decoder.isSome = true := by
  obtain ⟨-, hdecoder, -⟩ | ⟨i, hpos⟩ := h.state
  · exact hdecoder
  · obtain ⟨c, -, hdecoder, -⟩ := hpos.inPass.read
    rw [hdecoder]
    rfl

section Step

variable {s : Showing} {a : Asset} {i j e : Nat} {r : UInt32} {ticks : Nat → Tick}
  {d d' : MjpegDriver} {out : Outcome PlayStatus}

/-- The counter of the passes does not grow by more than one. -/
theorem toNat_succ_le (r : UInt32) : (r + 1).toNat ≤ r.toNat + 1 := by
  rw [UInt32.toNat_add]
  exact Nat.mod_le _ _

/-- The position after a call that has shown a frame. -/
theorem CallShows.position {p : Pacing} (hcall : CallShows s.file a j d out r p d') (hj : 0 < j)
    (hstill : s.file = .passes 1 → s.played = 0) (hr : r.toNat ≤ s.played)
    (hexact : (s.next ticks).onTime = true → j = (s.next ticks).index ∧
      r = UInt32.ofNat (s.next ticks).pass ∧ p = (s.next ticks).pacing) :
    Position (s.next ticks) a j d' where
  inPass := hcall.inPass
  first hzero := nomatch hzero
  begun _ := hj
  still hfile := by
    rw [show (s.next ticks).played = s.played + 1 from rfl, hstill hfile]
  repeats := by
    rw [hcall.repeats]
    exact hr
  exact htime := by
    rw [hcall.repeats, hcall.paced]
    exact hexact htime

/-- A frame that is not late is shown. -/
theorem Position.inside (hd : Going d) (hf : SupplyOf a s.file) (h : Position s a i d)
    (hi : i < s.file.frames) (halloc : (ticks 0).alloc = fun _ => true)
    (hlate : d.late (ticks 0).now = false) :
    ∃ d', d.playFrame ticks = .returns .normal d' ∧ Shows (s.next ticks) a d' ∧
      d'.repeatCount = d.repeatCount := by
  obtain ⟨d', hcall⟩ := h.inPass.playFrame_inside hd hf hi halloc hlate
  refine ⟨d', hcall.returns, ⟨hcall.going, .inr ⟨i + 1, hcall.position (Nat.succ_pos i) ?_ ?_ ?_⟩⟩,
    hcall.setting⟩
  · -- a file of one frame has no second one in its pass
    intro hfile
    rw [hfile] at hi
    by_contra hplayed
    have := h.begun (Nat.pos_of_ne_zero hplayed)
    have : i < 1 := hi
    omega
  · -- no new pass, so the counter is what it was
    exact Nat.le_trans h.repeats (Nat.sub_le ..)
  · intro htime
    obtain ⟨hindex, hpass, hpacing⟩ := h.exact (Showing.onTime_of_next htime).1
    obtain ⟨hindex', hpass', hnew⟩ := Showing.next_of_lt (s := s) ticks (hindex ▸ hi)
    refine ⟨by rw [hindex', hindex], by rw [hpass', hpass], ?_⟩
    rw [hpacing]
    exact congrArg (Pacing.countFrame · _) (Showing.paced_of_not_newPass hnew).symm

/-- At the end of a pass with repeats left the next one is started. -/
theorem Position.rewind (hd : Going d) (hf : SupplyOf a s.file) (hfile : s.file = .passes e)
    (h : Position s a e d) (hleft : d.repeatsLeft = true) (hone : e ≠ 1)
    (halloc : (ticks 0).alloc = fun _ => true) :
    ∃ d', d.playFrame ticks = .returns .normal d' ∧ Shows (s.next ticks) a d' ∧
      d'.repeatCount = d.repeatCount := by
  have hinPass := h.inPass
  rw [hfile] at hf hinPass
  obtain ⟨c, hc, -, -⟩ := hinPass.read
  have hpos := (hf c hc).pos
  obtain ⟨d', hcall⟩ := hinPass.playFrame_rewind hd hf hleft hone halloc
  rw [← hfile] at hcall
  -- at the end of a pass something has been shown
  have hplayed : 0 < s.played := by
    by_contra hzero
    have := (h.first (Nat.eq_zero_of_not_pos hzero)).1
    omega
  refine ⟨d', hcall.returns, ⟨hcall.going, .inr ⟨1, hcall.position Nat.one_pos ?_ ?_ ?_⟩⟩,
    hcall.setting⟩
  · intro hfile'
    exact absurd (FileSupply.passes.inj (hfile.symm.trans hfile')) hone
  · -- the counter has grown by one, and so has the number of calls
    have hle := h.repeats
    have hsucc := toNat_succ_le d.currentRepeat
    omega
  · intro htime
    -- on time, the deck's counters are the driver's, and the pass is new for both
    obtain ⟨hindex, hpass, hpacing⟩ := h.exact (Showing.onTime_of_next htime).1
    obtain ⟨-, -, -, hnew, hindex', hpass'⟩ := Showing.next_of_eq ticks hfile hpos hindex.symm
    refine ⟨hindex'.symm, by rw [hpass', hpass, UInt32.ofNat_add]; rfl, ?_⟩
    rw [hpacing]
    exact congrArg (Pacing.countFrame · _) (Showing.paced_of_newPass hnew).symm

/-- With repeats left a call that may find frames late shows one as well. -/
theorem Position.anyTime (hd : Going d) (hf : SupplyOf a s.file) (hfile : s.file = .passes e)
    (h : Position s a i d) (hleft : d.repeatsLeft = true) (hone : e ≠ 1) (hplayed : 0 < s.played)
    (halloc : ∀ k, (ticks k).alloc = fun _ => true) (htime : (s.next ticks).onTime = false) :
    ∃ d', d.playFrame ticks = .returns .normal d' ∧ Shows (s.next ticks) a d' ∧
      d'.repeatCount = d.repeatCount := by
  have hinPass := h.inPass
  rw [hfile] at hf hinPass
  -- late frames may be skipped, but the call ends with one that is handed over
  obtain ⟨d', j, hj, r, hr, hcall⟩ := hinPass.playFrame_anyTime hd hf hleft hone halloc
  rw [← hfile] at hcall
  refine ⟨d', hcall.returns, ⟨hcall.going, .inr ⟨j, hcall.position hj ?_ ?_ ?_⟩⟩, hcall.setting⟩
  · intro hfile'
    exact absurd (FileSupply.passes.inj (hfile.symm.trans hfile')) hone
  · have hle := h.repeats
    -- the skipping crosses the end of a pass at most once
    obtain rfl | rfl := hr
    · omega
    · have hsucc := toNat_succ_le d.currentRepeat
      omega
  · -- the exact position is claimed only of calls on time
    intro htime'
    exact nomatch htime.symm.trans htime'

/-! ### Whether there is a frame -/

/-- The test that the head of the loop makes. -/
theorem repeatsLeft_eq_true_iff :
    d.repeatsLeft = true ↔ d.repeatCount = -1 ∨ d.currentRepeat < d.repeatCount.toUInt32 := by
  simp [MjpegDriver.repeatsLeft]

/-- Where the clock does not matter, there is another pass. -/
theorem Position.repeatsLeft_of_anyTime (hfile : s.file = .passes e) (hone : e ≠ 1)
    (hplayed : 0 < s.played) (h : Position s a i d) (hany : s.AnyTime d.repeatCount) :
    d.repeatsLeft = true := by
  rw [repeatsLeft_eq_true_iff]
  simp only [Showing.AnyTime, hfile, hone, false_or] at hany
  obtain hforever | hle := hany
  · exact .inl hforever
  · have hrepeats := h.repeats
    refine .inr (UInt32.lt_iff_toNat_lt.mpr ?_)
    omega

/-- With enough passes left there is a frame at any time. -/
theorem Showing.supplied_of_anyTime {setting : Int32} (hfile : s.file = .passes e) (hone : e ≠ 1)
    (hany : s.AnyTime setting) : s.Supplied setting := by
  simp only [Showing.AnyTime, hfile, hone, false_or] at hany
  simp only [Showing.Supplied, hfile, hone, if_false]
  obtain hforever | hle := hany
  · exact .inr (.inl hforever)
  · by_cases hplayed : s.played = 0
    · exact .inl hplayed
    · -- the passes that were begun are no more than the frames
      refine .inr (.inr (.inr ?_))
      have hdiv := Nat.div_le_self s.played e
      have hlt := setting.toUInt32.toNat_lt
      rw [UInt32.lt_iff_toNat_lt,
        UInt32.toNat_ofNat_of_lt' (show s.played / e - 1 < 2 ^ 32 by omega)]
      omega

/-- Inside a pass there is a frame. -/
theorem Position.supplied (h : Position s a i d) (hi : i < s.file.frames)
    (htime : s.AnyTime d.repeatCount ∨ (s.next ticks).onTime = true) :
    s.Supplied d.repeatCount := by
  by_cases hplayed : s.played = 0
  · -- nothing has been shown yet
    obtain rfl := (h.first hplayed).1
    cases hfile : s.file with
    | passes e =>
      simp only [Showing.Supplied, hfile]
      exact .inl hplayed
    | broken n =>
      rw [hfile] at hi
      simp only [Showing.Supplied, hfile, hplayed]
      exact hi
  · -- something has been shown: either there are passes enough, or the call is on time
    have hbegun := h.begun (Nat.pos_of_ne_zero hplayed)
    obtain hany | htime := htime
    · cases hfile : s.file with
      | passes e =>
        rw [hfile] at hi
        have hlt : i < e := hi
        exact Showing.supplied_of_anyTime hfile (by omega) hany
      | broken n =>
        simp only [Showing.AnyTime, hfile] at hany
        exact absurd hany hplayed
    · -- on time the player is where the count of the calls says
      obtain ⟨hindex, -, -⟩ := h.exact (Showing.onTime_of_next htime).1
      have hnew := (Showing.next_of_lt (s := s) ticks (hindex ▸ hi)).2.2
      cases hfile : s.file with
      | passes e =>
        rw [hfile] at hi
        have hlt : i < e := hi
        have hmod : s.played % e ≠ 0 := by
          intro hzero
          simp [Showing.newPass, hfile, hzero] at hnew
          exact hplayed hnew
        simp only [Showing.Supplied, hfile, if_neg (show e ≠ 1 by omega)]
        exact .inr (.inr (.inl hmod))
      | broken n =>
        rw [hfile] at hi
        simp only [Showing.index, hfile] at hindex
        simp only [Showing.Supplied, hfile]
        exact hindex ▸ hi

/-- At the end of a pass there is a frame exactly if repeats are left. -/
theorem Position.supplied_iff_repeatsLeft (hf : SupplyOf a s.file) (hfile : s.file = .passes e)
    (hone : e ≠ 1) (h : Position s a e d)
    (htime : s.AnyTime d.repeatCount ∨ (s.next ticks).onTime = true) :
    s.Supplied d.repeatCount ↔ d.repeatsLeft = true := by
  obtain ⟨c, hc, -, -⟩ := h.inPass.read
  have hpos : 0 < e := by
    rw [hfile] at hf
    exact (hf c hc).pos
  have hplayed : 0 < s.played := by
    by_contra hzero
    have := (h.first (Nat.eq_zero_of_not_pos hzero)).1
    omega
  obtain hany | htime := htime
  · exact iff_of_true (Showing.supplied_of_anyTime hfile hone hany)
      (h.repeatsLeft_of_anyTime hfile hone hplayed hany)
  · obtain ⟨hindex, hpass, -⟩ := h.exact (Showing.onTime_of_next htime).1
    obtain ⟨-, hmod, hdiv, -⟩ := Showing.next_of_eq ticks hfile hpos hindex.symm
    -- the counter that the test reads is the number of passes, as the file's supply has it
    rw [repeatsLeft_eq_true_iff, hpass, ← hdiv]
    simp [Showing.Supplied, hfile, hone, hmod, Nat.ne_of_gt hplayed]

/-- A file of one frame is shown as an image if the setting is not 0. -/
theorem Position.supplied_iff_image (hfile : s.file = .passes 1) (h : Position s a 1 d) :
    s.Supplied d.repeatCount ↔ d.repeatsLeft = true := by
  -- behind its one frame, and not an image yet
  have hplayed : s.played = 1 := by
    have hle := h.still hfile
    have hne : s.played ≠ 0 := fun hzero => nomatch (h.first hzero).1
    omega
  have hrepeat : d.currentRepeat = 0 := by
    have hle := h.repeats
    rw [hplayed] at hle
    exact UInt32.toNat_inj.mp (Nat.le_zero.mp hle)
  -- compared as unsigned, every setting but zero leaves the first pass
  have hzero : (0 : UInt32) < d.repeatCount.toUInt32 ↔ d.repeatCount ≠ 0 := by
    rw [UInt32.pos_iff_ne_zero, not_iff_not]
    exact ⟨congrArg Int32.ofUInt32, fun h => by rw [h]; rfl⟩
  rw [repeatsLeft_eq_true_iff, hrepeat, hzero]
  simp [Showing.Supplied, hfile, hplayed]

/-! ### The call -/

/-- The call returns with one more frame played if there is one, and waits for itself if not. -/
def CallEndsAs (s : Showing) (a : Asset) (ticks : Nat → Tick) (d : MjpegDriver) : Prop :=
  (s.Supplied d.repeatCount ∧ ∃ d', d.playFrame ticks = .returns .normal d' ∧
      Shows (s.next ticks) a d' ∧ d'.repeatCount = d.repeatCount) ∨
    (¬ s.Supplied d.repeatCount ∧ (d.playFrame ticks).isBlocked = true)

/-- A call inside a pass hands over a frame. -/
theorem Position.playFrame_inside (hd : Going d) (hf : SupplyOf a s.file) (h : Position s a i d)
    (hi : i < s.file.frames) (halloc : ∀ k, (ticks k).alloc = fun _ => true)
    (htime : s.AnyTime d.repeatCount ∨ (s.next ticks).onTime = true) :
    CallEndsAs s a ticks d := by
  refine .inl ⟨h.supplied hi htime, ?_⟩
  cases hlate : d.late (ticks 0).now with
  | false => exact h.inside hd hf hi (halloc 0) hlate
  | true =>
    have hplayed : 0 < s.played := by
      by_contra hzero
      have hstart := (h.first (Nat.eq_zero_of_not_pos hzero)).2.2
      simp [MjpegDriver.late, hstart] at hlate
    -- the clock that the calls have read says that the frame is late, too
    have hnot : ¬ (s.next ticks).onTime = true := by
      intro htime
      obtain ⟨honTime, hpaced⟩ := Showing.onTime_of_next htime
      obtain ⟨hindex, -, hpacing⟩ := h.exact honTime
      have hnew := (Showing.next_of_lt (s := s) ticks (hindex ▸ hi)).2.2
      rw [Showing.paced_of_not_newPass hnew, ← hpacing, late_pacing, hlate] at hpaced
      cases hpaced
    -- so that the call may go on to another frame, or another pass
    have hany := htime.resolve_right hnot
    cases hfile : s.file with
    | passes e =>
      have hone : e ≠ 1 := by
        have hbegun := h.begun hplayed
        rw [hfile] at hi
        have hlt : i < e := hi
        omega
      exact h.anyTime hd hf hfile (h.repeatsLeft_of_anyTime hfile hone hplayed hany) hone hplayed
        halloc (by simpa using hnot)
    | broken n =>
      simp only [Showing.AnyTime, hfile] at hany
      omega

/-- At the end of a pass. -/
theorem Position.playFrame_end (hd : Going d) (hf : SupplyOf a s.file) (hfile : s.file = .passes e)
    (h : Position s a e d) (halloc : ∀ k, (ticks k).alloc = fun _ => true)
    (htime : s.AnyTime d.repeatCount ∨ (s.next ticks).onTime = true) :
    CallEndsAs s a ticks d := by
  have hinPass := h.inPass
  have hfile' := hf
  rw [hfile] at hinPass hfile'
  -- after the last pass `stop` waits for the lock that the call itself holds
  have hblocked : d.repeatsLeft = false → (d.playFrame ticks).isBlocked = true := fun hleft =>
    playFrame_of_blocked hd hinPass.moving
      ((hinPass.of_locked true).playRound_finish (hd.inLoop hd.playing) hfile' hleft)
  by_cases hone : e = 1
  · subst hone
    -- one frame only: it is shown as an image
    have hiff := h.supplied_iff_image hfile
    cases hleft : d.repeatsLeft with
    | false => exact .inr ⟨by rw [hiff, hleft]; decide, hblocked hleft⟩
    | true =>
      obtain ⟨d', hret, hgoing, himage, hdecoder, hsetting⟩ :=
        hinPass.playFrame_image ticks hd hfile' hleft
      have hplayed : s.played ≠ 0 := fun hzero => nomatch (h.first hzero).1
      refine .inl ⟨hiff.mpr hleft, d', hret, ⟨hgoing, .inl ⟨himage, ?_, hfile, ?_⟩⟩, hsetting⟩
      · obtain ⟨c, -, hc, -⟩ := hinPass.read
        rw [hdecoder, hc]
        rfl
      · show 2 ≤ s.played + 1
        omega
  · have hiff := h.supplied_iff_repeatsLeft hf hfile hone htime
    cases hleft : d.repeatsLeft with
    | false => exact .inr ⟨by rw [hiff, hleft]; decide, hblocked hleft⟩
    | true => exact .inl ⟨hiff.mpr hleft, h.rewind hd hf hfile hleft hone (halloc 0)⟩

/-- Behind the last frame of a file that has no end. -/
theorem Position.playFrame_broken {n : Nat} (hd : Going d) (hf : SupplyOf a s.file)
    (hfile : s.file = .broken n) (h : Position s a n d)
    (halloc : ∀ k, (ticks k).alloc = fun _ => true)
    (htime : s.AnyTime d.repeatCount ∨ (s.next ticks).onTime = true) :
    CallEndsAs s a ticks d := by
  have hinPass := h.inPass
  -- the calls have shown all the frames there are
  have hplayed : s.played = n := by
    obtain hany | htime := htime
    · simp only [Showing.AnyTime, hfile] at hany
      rw [hany, (h.first hany).1]
    · obtain ⟨hindex, -, -⟩ := h.exact (Showing.onTime_of_next htime).1
      simp only [Showing.index, hfile] at hindex
      exact hindex.symm
  rw [hfile] at hinPass hf
  refine .inr ⟨?_, playFrame_of_blocked hd hinPass.moving
    ((hinPass.of_locked true).playRound_broken (hd.inLoop hd.playing) hf (halloc 0))⟩
  simp only [Showing.Supplied, hfile, hplayed, Nat.lt_irrefl, not_false_eq_true]

/-- A call hands over a frame exactly if the file supplies one. -/
theorem Shows.playFrame_ends (hf : SupplyOf a s.file) (h : Shows s a d)
    (halloc : ∀ k, (ticks k).alloc = fun _ => true)
    (htime : s.AnyTime d.repeatCount ∨ (s.next ticks).onTime = true) :
    CallEndsAs s a ticks d := by
  -- an image is shown without reading; else the position in the pass decides
  obtain ⟨himage, hsome, hfile, hplayed⟩ | ⟨i, hpos⟩ := h.state
  · obtain ⟨d', hret, hgoing, himage', hdecoder, hsetting⟩ :=
      playFrame_isImage ticks h.toGoing himage
    refine .inl ⟨?_, d', hret, ⟨hgoing, .inl ⟨himage', hdecoder ▸ hsome, hfile,
      Nat.le_succ_of_le hplayed⟩⟩, hsetting⟩
    simp only [Showing.Supplied, hfile, if_true]
    exact .inr (.inr (.inl (by omega)))
  · obtain hlt | heq := Nat.lt_or_eq_of_le hpos.inPass.le
    · exact hpos.playFrame_inside h.toGoing hf hlt halloc htime
    · cases hfile : s.file with
      | passes e =>
        obtain rfl : i = e := by rw [hfile] at heq; exact heq
        exact hpos.playFrame_end h.toGoing hf hfile halloc htime
      | broken n =>
        obtain rfl : i = n := by rw [hfile] at heq; exact heq
        exact hpos.playFrame_broken h.toGoing hf hfile halloc htime

end Step

/-! ## Every sequence of calls -/

/-- What a sequence of calls tells of the player: whether there is a decoder, the repeat setting,
    and the bound file. -/
structure Deck where
  prepared : Bool := false
  setting : Int32 := 0
  showing : Option Showing := none

section Deck

variable (supply : Asset → FileSupply)

def Deck.after (k : Deck) : Call → Deck
  | .prepareResource _ => { k with prepared := true }
  | .animBindAssets a =>
    match k.showing with
    | none => { k with showing := some ⟨supply a, 0, .init fps, true⟩ }
    | some _ => k
  | .setRepeat n => { k with setting := n }
  | .playFrame ticks => { k with showing := k.showing.map (·.next ticks) }
  | .stop | .drvActivationCb false => { k with showing := none }
  | .drvActivationCb true => k

/-- There is a decoder before a file is bound, and it is not replaced under a bound file;
    allocations succeed; and every frame is examined in time, unless that does not matter. -/
def Regular (k : Deck) : Call → Prop
  | .prepareResource _ => k.showing = none
  | .animBindAssets _ => k.prepared = true
  | .playFrame ticks => ∀ s, k.showing = some s → (∀ j, (ticks j).alloc = fun _ => true) ∧
      (s.AnyTime k.setting ∨ (s.next ticks).onTime = true)
  | _ => True

/-- There is a frame for every `play_frame` call on a bound file. -/
def HasFrame (k : Deck) : Call → Prop
  | .playFrame _ => ∀ s, k.showing = some s → s.Supplied k.setting
  | _ => True

/-- The player is as the calls tell. -/
structure Follows (k : Deck) (d : MjpegDriver) : Prop extends Kept d where
  prepared : k.prepared = true → d.decoder.isSome = true
  setting : d.repeatCount = k.setting
  idle : k.showing = none → d.playing = false ∧ d.pacing = .init fps
  showing : ∀ s, k.showing = some s →
    k.prepared = true ∧ ∃ a, SupplyOf a s.file ∧ Shows s a d

/-- In the beginning nothing is prepared and nothing is shown. -/
theorem follows_init : Follows {} {} where
  toKept := kept_init
  prepared h := nomatch h
  setting := rfl
  idle _ := ⟨rfl, rfl⟩
  showing _ h := nomatch h

section Follow

variable {k : Deck} {d : MjpegDriver}

/-- A deck that shows something is playing. -/
theorem Follows.playing (h : Follows k d) {s : Showing} (hs : k.showing = some s) :
    d.playing = true := by
  obtain ⟨-, a, -, hshows⟩ := h.showing s hs
  exact hshows.playing

/-- `stop()` from outside finds the lock free, and resets the player. -/
theorem Follows.stop (h : Follows k d) :
    ∃ d', d.stop = .returns () d' ∧ Follows { k with showing := none } d' := by
  cases hs : k.showing with
  -- nothing is bound: `stop` returns at once
  | none =>
    obtain ⟨hplaying, hpacing⟩ := h.idle hs
    have hret : d.stop = .returns () d := by
      simp only [MjpegDriver.stop, hplaying, Bool.false_eq_true, if_false]
    refine ⟨d, hret, h.toKept, h.prepared, h.setting, fun _ => ⟨hplaying, hpacing⟩, ?_⟩
    intro s hs
    cases hs
  | some s =>
    have hplaying := h.playing hs
    obtain ⟨c, hc⟩ := Option.isSome_iff_exists.mp (h.prepared (h.showing s hs).1)
    have hret : d.stop = .returns ()
        (({ d with playing := false } : MjpegDriver).logged .decoderStopped).resetPlayStatus := by
      simp only [MjpegDriver.stop, hplaying, h.unlocked, hc, Bool.false_eq_true, if_false, if_true]
    refine ⟨_, hret, stop_kept h.toKept hret, ?_, h.setting, fun _ => ⟨rfl, rfl⟩, ?_⟩
    · intro _
      show (d.decoder.map MjpegCodec.resetInputStatus).isSome = true
      rw [hc]
      rfl
    · intro s hs
      cases hs

/-- A file that has just been bound. -/
theorem Follows.bind (h : Follows k d) {a : Asset} (hf : SupplyOf a (supply a))
    (hprepared : k.prepared = true) (hs : k.showing = none) :
    Follows { k with showing := some ⟨supply a, 0, .init fps, true⟩ } (d.animBindAssets a).2 := by
  obtain ⟨hplaying, hpacing⟩ := h.idle hs
  obtain ⟨c, hc⟩ := Option.isSome_iff_exists.mp (h.prepared hprepared)
  -- binding opens the file and leaves the counters, which are reset
  have hbind : (d.animBindAssets a).2 =
      { d with playing := true, animFile := .openAsset a, log := [] } := by
    simp only [MjpegDriver.animBindAssets, hplaying, Bool.false_eq_true, if_false]
  have hgoing : Going (d.animBindAssets a).2 := by
    rw [hbind]
    exact ⟨⟨h.unlocked, h.fits⟩, rfl⟩
  have hposition : Position ⟨supply a, 0, .init fps, true⟩ a 0 (d.animBindAssets a).2 := by
    rw [hbind]
    exact {
      inPass := ⟨h.still hplaying, rfl, h.count hplaying, Nat.zero_le _,
        ⟨c, ⟨h.index hplaying c hc, h.empty hplaying c hc⟩, hc, rfl⟩⟩
      first := fun _ => ⟨rfl, h.pass hplaying, congrArg Pacing.startMs hpacing⟩
      begun := nofun
      still := fun _ => Nat.zero_le 1
      repeats := by
        show d.currentRepeat.toNat ≤ 0 - 1
        rw [h.pass hplaying]
        exact Nat.le_refl 0
      exact := by
        intro _
        refine ⟨?_, ?_, hpacing⟩
        · cases hfile : supply a <;> simp [Showing.index]
        · cases hfile : supply a <;> simp [Showing.pass, h.pass hplaying] }
  refine ⟨hgoing.kept, ?_, ?_, nofun, ?_⟩
  · intro _
    rw [hbind]
    exact h.prepared hprepared
  · rw [hbind]
    exact h.setting
  · intro s hs'
    cases hs'
    exact ⟨hprepared, a, hf, ⟨hgoing, .inr ⟨0, hposition⟩⟩⟩

/-- The repeat setting is looked at only at the end of a pass. -/
theorem Shows.setRepeat {s : Showing} {a : Asset} (h : Shows s a d) (n : Int32) :
    Shows s a (d.setRepeat n) where
  unlocked := h.unlocked
  fits := h.fits
  playing := h.playing
  state := by
    obtain himage | ⟨i, hpos⟩ := h.state
    · exact .inl himage
    · refine .inr ⟨i, ?_⟩
      exact { hpos with
        inPass := ⟨hpos.inPass.moving, hpos.inPass.asset, hpos.inPass.count, hpos.inPass.le,
          hpos.inPass.read⟩ }

/-- Unlocking changes nothing when the lock is free. -/
theorem unlock_eq (h : d.locked = false) : ({ d with locked := false } : MjpegDriver) = d := by
  cases d
  cases h
  rfl

/-- The deck follows `play_frame`. -/
theorem Follows.playFrame (h : Follows k d) {ticks : Nat → Tick}
    (hregular : Regular k (.playFrame ticks)) :
    (HasFrame k (.playFrame ticks) ∧ ∃ status d', d.playFrame ticks = .returns status d' ∧
        Follows (k.after supply (.playFrame ticks)) d') ∨
      (¬ HasFrame k (.playFrame ticks) ∧ (d.playFrame ticks).isBlocked = true) := by
  cases hs : k.showing with
  | none =>
    -- without a bound file the call returns at once
    obtain ⟨hplaying, hpacing⟩ := h.idle hs
    have hret : d.playFrame ticks = .returns .complete d := by
      have hunlock : ({ d with locked := false } : MjpegDriver) = d := unlock_eq h.unlocked
      simp only [MjpegDriver.playFrame, h.unlocked, Bool.false_eq_true, if_false, hplaying,
        Outcome.andThen]
      rw [hplaying] at hunlock
      rw [hunlock]
    have hfree : HasFrame k (.playFrame ticks) := by
      intro s hs'
      cases hs.symm.trans hs'
    refine .inl ⟨hfree, _, d, hret, ?_⟩
    have hsame : k.after supply (.playFrame ticks) = k := by
      rw [Deck.after, hs]
      cases k
      cases hs
      rfl
    rw [hsame]
    exact h
  | some s =>
    obtain ⟨hprepared, a, hf, hshows⟩ := h.showing s hs
    obtain ⟨halloc, htime⟩ := hregular s hs
    -- the deck has the repeat setting of the player
    have hiff : HasFrame k (.playFrame ticks) ↔ s.Supplied d.repeatCount := by
      simp only [HasFrame, hs, Option.some.injEq, forall_eq', h.setting]
    rw [← h.setting] at htime
    obtain ⟨hsupplied, d', hret, hshows', hsetting⟩ | ⟨hnot, hblocked⟩ :=
      hshows.playFrame_ends hf halloc htime
    · refine .inl ⟨hiff.mpr hsupplied, _, d', hret, hshows'.toGoing.kept, ?_, ?_, ?_, ?_⟩
      · exact fun _ => hshows'.decoder_isSome
      · exact hsetting.trans h.setting
      · rw [Deck.after, hs]
        intro hnone
        cases hnone
      · intro s' hs'
        rw [Deck.after, hs] at hs'
        cases hs'
        exact ⟨hprepared, a, hf, hshows'⟩
    · exact .inr ⟨mt hiff.mp hnot, hblocked⟩

/-- One call returns and leaves the player as the calls tell if there is a frame for it, and waits
    for itself if not. -/
theorem Follows.exec (h : Follows k d) {call : Call}
    (hfile : ∀ a, call = .animBindAssets a → SupplyOf a (supply a)) (hregular : Regular k call) :
    (HasFrame k call ∧ ∃ d', call.exec d = .returns () d' ∧ Follows (k.after supply call) d') ∨
      (¬ HasFrame k call ∧ (call.exec d).isBlocked = true) := by
  cases call with
  | prepareResource behind =>
    have hkept : Kept (d.prepareResource behind) := exec_kept h.toKept
      (show (Call.prepareResource behind).exec d = .returns () (d.prepareResource behind) from rfl)
    refine .inl ⟨trivial, _, rfl, hkept, fun _ => rfl, h.setting, h.idle, ?_⟩
    -- not while a file is shown
    intro s hs
    exact nomatch hregular.symm.trans hs
  | animBindAssets a =>
    refine .inl ⟨trivial, _, rfl, ?_⟩
    cases hs : k.showing with
    | none =>
      rw [Deck.after, hs]
      exact h.bind supply (hfile a rfl) hregular hs
    | some s =>
      -- a file is bound already, and the call fails
      have hsame : (d.animBindAssets a).2 = d := by
        simp only [MjpegDriver.animBindAssets, h.playing hs, if_true]
      rw [Deck.after, hs, hsame]
      exact h
  -- a new setting changes which calls have a frame, not the position
  | setRepeat n =>
    have hkept : Kept (d.setRepeat n) := exec_kept h.toKept
      (show (Call.setRepeat n).exec d = .returns () (d.setRepeat n) from rfl)
    refine .inl ⟨trivial, _, rfl, hkept, h.prepared, rfl, h.idle, ?_⟩
    intro s hs
    obtain ⟨hprepared, a, hf, hshows⟩ := h.showing s hs
    exact ⟨hprepared, a, hf, hshows.setRepeat n⟩
  | playFrame ticks =>
    obtain ⟨hframe, status, d', hret, hfollows⟩ | ⟨hnot, hblocked⟩ := h.playFrame supply hregular
    · exact .inl ⟨hframe, d', by rw [Call.exec, hret]; rfl, hfollows⟩
    · exact .inr ⟨hnot, andThen_isBlocked hblocked⟩
  | stop =>
    obtain ⟨d', hret, hfollows⟩ := h.stop
    exact .inl ⟨trivial, d', hret, hfollows⟩
  -- deactivation stops the player from outside, where the lock is free
  | drvActivationCb activate =>
    cases activate with
    | true => exact .inl ⟨trivial, d, rfl, h⟩
    | false =>
      obtain ⟨d', hret, hfollows⟩ := h.stop
      exact .inl ⟨trivial, d', hret, hfollows⟩

/-- A run returns if there is a frame for every call of it, and waits for itself if not. -/
theorem Follows.runCalls (h : Follows k d) {calls : List Call}
    (hfiles : ∀ a, .animBindAssets a ∈ calls → SupplyOf a (supply a))
    (hregular : Always (Deck.after supply) Regular k calls) :
    (Always (Deck.after supply) HasFrame k calls ∧
        ∃ d', runCalls calls d = .returns () d' ∧ d'.locked = false) ∨
      (¬ Always (Deck.after supply) HasFrame k calls ∧ (runCalls calls d).isBlocked = true) := by
  induction calls generalizing k d with
  | nil => exact .inl ⟨trivial, d, rfl, h.unlocked⟩
  | cons call calls ih =>
    obtain ⟨hframe, d', hret, hfollows⟩ | ⟨hnot, hblocked⟩ := h.exec supply
      (fun a ha => hfiles a (ha ▸ List.mem_cons_self)) hregular.1
    · -- a call that returns hands the player to the next one
      have hnext : Native.runCalls (call :: calls) d = Native.runCalls calls d' := by
        rw [Native.runCalls, hret]
        rfl
      rw [hnext]
      obtain ⟨hframes, hrest⟩ | ⟨hnot, hblocked⟩ := ih hfollows
        (fun a ha => hfiles a (List.mem_cons_of_mem _ ha)) hregular.2
      · exact .inl ⟨⟨hframe, hframes⟩, hrest⟩
      · exact .inr ⟨fun hall => hnot hall.2, hblocked⟩
    · exact .inr ⟨fun hall => hnot hall.1, andThen_isBlocked hblocked⟩

end Follow

/-- For every sequence of calls to a new player, on files that have the same frames whatever the
    window of the codec holds: if the sequence is regular, it runs through and the lock is free at
    its end exactly if there is a frame for every `play_frame` call on a bound file. -/
theorem runCalls_returns_iff (calls : List Call)
    (hfiles : ∀ a, .animBindAssets a ∈ calls → SupplyOf a (supply a))
    (hregular : Always (Deck.after supply) Regular {} calls) :
    (∃ d, runCalls calls {} = .returns () d ∧ d.locked = false) ↔
      Always (Deck.after supply) HasFrame {} calls := by
  obtain ⟨hframes, hret⟩ | ⟨hnot, hblocked⟩ := follows_init.runCalls supply hfiles hregular
  · exact iff_of_true hret hframes
  · refine iff_of_false ?_ hnot
    rintro ⟨d, hret, -⟩
    rw [hret] at hblocked
    exact nomatch hblocked

end Deck

/-! ### A file of two frames -/

/-- Whatever its window held before, a codec that has read nothing starts with a window of the
    stream. -/
theorem Unread.atWindow {c : MjpegCodec} {l : List UInt8} (hc : Unread c) (hne : l ≠ [])
    (hlen : l.length < 2 ^ 32) :
    ∃ c₁ input₁, c.firstRead l = (c₁, input₁) ∧
      AtWindow c₁ input₁ (c.readBuf 1024) (Mem.load c.readBuf 0 1024) l := by
  refine ⟨_, _, firstRead_of_reset hc.index, Holds.stored c.readBuf l, ?_, rfl,
    firstRead_counted hne hlen⟩
  rw [List.length_take]

/-- A frame of five bytes, and one that is longer than a window. -/
def twoFrames : Asset where
  bytes := [0xFF, 0xD8, 0, 0xFF, 0xD9] ++ longFrame
  size_lt := by
    rw [List.length_append, length_longFrame]
    decide

/-- The length of the asset. -/
theorem length_twoFrames : twoFrames.bytes.length = 1509 := by
  rw [twoFrames, List.length_append, length_longFrame]
  rfl

/-- Behind the first frame lies the second one. -/
theorem drop_twoFrames : twoFrames.bytes.drop (3 + 2) = longFrame := rfl

/-- The first frame. -/
theorem nextFrame_twoFrames : nextFrame twoFrames.bytes = some (0, 3) := by
  refine nextFrame_eq_some.mpr ⟨findMarker_eq_some.mpr ⟨Nat.le_refl 0, rfl, ?_⟩,
    findMarker_eq_some.mpr ⟨Nat.le_refl 3, rfl, ?_⟩⟩
  · intro j _ hj
    omega
  · intro j hlo hhi
    omega

/-- No edge of a window splits a marker of it. -/
theorem frameClear_twoFrames (behind : UInt8) (prev : List UInt8) :
    FrameClear behind prev twoFrames.bytes 0 3 where
  header i hi hff := by
    obtain rfl : i = 0 := Nat.le_zero.mp hi
    have hlt : 0 + 1 < twoFrames.bytes.length := by
      rw [length_twoFrames]
      decide
    rw [seenAfter, if_neg (by decide), if_pos hlt]
    exact iff_of_true rfl rfl
  room := by decide
  third := by decide
  trailer i hlo hhi := by omega
  whole := by decide

/-- A pass over the file has two frames. -/
theorem supplyOf_twoFrames : SupplyOf twoFrames (.passes 2) := by
  intro c hc
  have hlen := length_twoFrames
  have hne : twoFrames.bytes ≠ [] := List.ne_nil_of_length_pos (by omega)
  obtain ⟨c₁, input₁, hfirst, hat⟩ := hc.atWindow hne twoFrames.size_lt
  -- the first frame, and the window behind it
  obtain ⟨c₂, input₂, hread, hat₂⟩ := readFrame_frame hfirst hat nextFrame_twoFrames
    (frameClear_twoFrames _ _)
  rw [drop_twoFrames] at hat₂
  -- the second frame
  obtain ⟨c₃, input₃, hread₂, hat₃⟩ := readFrame_frame
    (firstRead_of_started hat₂.index.started) hat₂ nextFrame_longFrame
    (frameClear_longFrame _ _)
  have hafter : afterFrames c twoFrames.bytes 1 = (c₂, input₂) := by
    rw [afterFrames_succ_head hread]
    rfl
  have hafter₂ : afterFrames c twoFrames.bytes 2 = (c₃, input₃) := by
    rw [afterFrames_succ_head hread, afterFrames_succ_head hread₂]
    rfl
  have hframes : (c.frames twoFrames.bytes).length = 2 := by
    have hclear : EdgesClear (c.readBuf 1024) (Mem.load c.readBuf 0 1024) twoFrames.bytes := by
      refine .frame nextFrame_twoFrames (frameClear_twoFrames _ _) ?_
      rw [drop_twoFrames]
      exact edgesClear_longFrame _ _
    rw [MjpegCodec.frames, readFrames_eq_splitFrames hclear hfirst hat,
      splitFrames_some nextFrame_twoFrames, drop_twoFrames, splitFrames_longFrame]
    · rfl
    · simp [MjpegCodec.pending, hc.empty]
  exact {
    pos := by decide
    le := Nat.le_of_eq hframes.symm
    inside := by
      intro i hi
      obtain rfl | rfl : i = 0 ∨ i = 1 := by omega
      · exact hne
      · rw [hafter]
        show input₂ ≠ []
        rw [hat₂.rest]
        apply List.ne_nil_of_length_pos
        rw [List.length_drop, length_longFrame]
        decide
    used := by
      rw [hafter₂]
      show input₃ = []
      rw [hat₃.rest]
      apply List.drop_eq_nil_of_le
      rw [List.length_drop, length_longFrame]
      decide }

/-- A `play_frame` call in which allocations succeed and the clock stands at `now`. -/
def playAt (now : UInt32) : Call := .playFrame fun _ => ⟨fun _ => true, now, now⟩

/-- Two passes of the file in time; then the file over and over, with frames that are late. -/
def twoPasses : List Call :=
  [.prepareResource fun _ => 0, .setRepeat 1, .animBindAssets twoFrames, playAt 10, playAt 45,
    playAt 90, playAt 125, .stop, .setRepeat (-1), .animBindAssets twoFrames, playAt 200,
    playAt 5000, playAt 9000, .drvActivationCb false]

/-- Two files bound one after the other, with four and three frames. -/
theorem runCalls_returns_iff_twoPasses :
    ∃ d, runCalls twoPasses {} = .returns () d ∧ d.locked = false := by
  refine (runCalls_returns_iff (fun _ => .passes 2) twoPasses ?_ ?_).mpr ?_
  · intro a ha
    obtain rfl : a = twoFrames := by simpa [twoPasses, playAt] using ha
    exact supplyOf_twoFrames
  · refine ⟨rfl, trivial, rfl, ?_, ?_, ?_, ?_, trivial, trivial, rfl, ?_, ?_, ?_, trivial, trivial⟩
    all_goals
      intro s hs
      cases hs
      exact ⟨fun _ => rfl, by decide⟩
  · refine ⟨trivial, trivial, trivial, ?_, ?_, ?_, ?_, trivial, trivial, trivial, ?_, ?_, ?_,
      trivial, trivial⟩
    all_goals
      intro s hs
      cases hs
      decide

/-- A file with a single frame, played once. The second `play_frame` call finds the
    file used up, calls `stop()` and waits for itself. -/
theorem runCalls_blocked_single :
    (runCalls
      [.prepareResource fun _ => 0, .animBindAssets ⟨[0xFF, 0xD8, 0, 0xFF, 0xD9], by decide⟩,
        .setRepeat 0, .playFrame fun _ => ⟨fun _ => true, 1, 1⟩,
        .playFrame fun _ => ⟨fun _ => true, 41, 41⟩] {}).isBlocked = true := by
  decide +kernel

end Ivy.Spec
