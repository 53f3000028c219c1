import Ivy.ForStd.Transition
import Ivy.Native.TklOta

/-!
# Firmware images and handles

Two facts about whole sequences of update sessions. The image that becomes the boot
partition is the one that was sent, provided that the packs come in order, because
`esp_ota_write` appends and the offset of a pack is not looked at. And the handles of
ESP-IDF are all released, provided that no session is ended before it is complete.
-/

namespace Ivy.Spec

open Ivy.Native Ivy.Lts

/-! ## Calls -/

inductive OtaCall
  | start (imageSize : UInt32) (partition : Option Nat) (begun : Bool)
  | data (pack : Option OtaPack) (remainLen : Option UInt32) (written : Bool)
  | finish (reset ended booted : Bool)
  deriving DecidableEq, Repr

/-- The value returned and the new state. -/
def otaCall (o : TklOta) : OtaCall → OperateRet × TklOta
  | .start imageSize partition begun => o.startNotify imageSize partition begun
  | .data pack remainLen written =>
    ((o.dataProcess pack remainLen written).1, (o.dataProcess pack remainLen written).2.2)
  | .finish reset ended booted => o.endNotify reset ended booted

/-- A session is open and bytes are missing. -/
def Receiving (o : TklOta) : Prop := o.state = .begin ∨ o.state = .inProgress

instance (o : TklOta) : Decidable (Receiving o) := inferInstanceAs (Decidable (_ ∨ _))

/-- While data is received a session is open, -/
theorem Receiving.ne_init {o : TklOta} (h : Receiving o) : o.state ≠ .init := by
  rcases h with h | h <;> rw [h] <;> nofun

/-- and it is not complete. -/
theorem Receiving.ne_success {o : TklOta} (h : Receiving o) : o.state ≠ .success := by
  rcases h with h | h <;> rw [h] <;> nofun

/-- What a call does: the value it returns, the calls of ESP-IDF it makes and the state it
    leaves. -/
inductive OtaStep (o : TklOta) : OtaCall → OperateRet → List OtaEffect → TklOta → Prop
  -- a call that is refused
  | ignored (c : OtaCall) (ret : OperateRet) (hret : ret ≠ .ok)
      (hc : ∀ reset ended booted, c ≠ .finish reset ended booted) : OtaStep o c ret [] o
  -- `tkl_ota_start_notify`, without a partition or a handle, and with both
  | unopened (imageSize : UInt32) (partition : Option Nat) (begun : Bool)
      (es : List OtaEffect) (o' : TklOta) (hinit : o.state = .init)
      (hes : es = [] ∨ es = [.begin imageSize none]) (hstate : o'.state = .init)
      (hlast : o'.lastHandle = o.lastHandle) (hlog : o'.log = o.log ++ es) :
      OtaStep o (.start imageSize partition begun) .comError es o'
  | opened (imageSize : UInt32) (partition : Option Nat) (hinit : o.state = .init) :
      OtaStep o (.start imageSize partition true) .ok
        [.begin imageSize (some (o.lastHandle + 1))]
        { state := .begin, handle := o.lastHandle + 1, partition := partition,
          imageSize := imageSize, offsetImageSize := 0, lastHandle := o.lastHandle + 1,
          log := o.log ++ [.begin imageSize (some (o.lastHandle + 1))] }
  -- `tkl_ota_data_process`: behind the end, and with or without success
  | repeated (pack : OtaPack) (remain : UInt32) (written : Bool) (hdone : o.state = .success) :
      OtaStep o (.data (some pack) (some remain) written) .ok [] o
  | unwritten (pack : OtaPack) (remain : UInt32) (hopen : Receiving o) :
      OtaStep o (.data (some pack) (some remain) false) .comError
        [.write o.handle pack.data false] (o.emit (.write o.handle pack.data false))
  | written (pack : OtaPack) (remain : UInt32) (hopen : Receiving o) :
      OtaStep o (.data (some pack) (some remain) true) .ok [.write o.handle pack.data true]
        ((o.emit (.write o.handle pack.data true)).advance pack.len)
  -- `tkl_ota_end_notify`, before the image is complete and after
  | dropped (reset ended booted : Bool) (hmissing : o.state ≠ .success) :
      OtaStep o (.finish reset ended booted) .comError [] o.handleInit
  | finished (reset ended booted : Bool) (ret : OperateRet) (tail : List OtaEffect)
      (o' : TklOta) (hdone : o.state = .success)
      (htail : ∀ e ∈ tail, e = .restart ∨ ∃ ok, e = .setBootPartition o.partition ok)
      (hstate : o'.state = .init) (hlast : o'.lastHandle = o.lastHandle)
      (hlog : o'.log = o.log ++ .finish o.handle ended :: tail) :
      OtaStep o (.finish reset ended booted) ret (.finish o.handle ended :: tail) o'

section

variable (o : TklOta)

/-- `tkl_ota_start_notify` makes one of the steps. -/
theorem startNotify_step (imageSize : UInt32) (partition : Option Nat) (begun : Bool) :
    ∃ es, OtaStep o (.start imageSize partition begun)
      (o.startNotify imageSize partition begun).1 es
      (o.startNotify imageSize partition begun).2 := by
  unfold TklOta.startNotify
  split
  · exact ⟨_, .ignored _ _ nofun nofun⟩
  · split
    · exact ⟨_, .ignored _ _ nofun nofun⟩
    · rename_i hstate
      have hinit : o.state = .init := Decidable.not_not.mp hstate
      dsimp only
      split
      · exact ⟨[], .unopened _ _ _ _ _ hinit (.inl rfl) rfl rfl (List.append_nil _).symm⟩
      · cases begun with
        | false => exact ⟨_, .unopened _ _ _ _ _ hinit (.inr rfl) rfl rfl rfl⟩
        | true => exact ⟨_, .opened _ _ hinit⟩

/-- The states in which data is received. -/
theorem receiving_of_ne (hinit : o.state ≠ .init) (hdone : o.state ≠ .success) :
    Receiving o := by
  unfold Receiving
  cases hstate : o.state with
  | init => exact absurd hstate hinit
  | begin => exact .inl rfl
  | inProgress => exact .inr rfl
  | success => exact absurd hstate hdone

/-- `tkl_ota_data_process` makes one of the steps. -/
theorem dataProcess_step (pack : Option OtaPack) (remainLen : Option UInt32) (written : Bool) :
    ∃ es, OtaStep o (.data pack remainLen written) (o.dataProcess pack remainLen written).1 es
      (o.dataProcess pack remainLen written).2.2 := by
  unfold TklOta.dataProcess
  split
  · rename_i pack remain
    split
    · exact ⟨_, .ignored _ _ nofun nofun⟩
    · rename_i hinit
      split
      · exact ⟨_, .repeated _ _ _ ‹_›⟩
      · have hopen := receiving_of_ne o hinit ‹_›
        cases written with
        | false => exact ⟨_, .unwritten _ _ hopen⟩
        | true => exact ⟨_, .written _ _ hopen⟩
  · exact ⟨_, .ignored _ _ nofun nofun⟩

/-- `tkl_ota_end_notify` makes one of the steps. -/
theorem endNotify_step (reset ended booted : Bool) :
    ∃ es, OtaStep o (.finish reset ended booted) (o.endNotify reset ended booted).1 es
      (o.endNotify reset ended booted).2 := by
  unfold TklOta.endNotify
  split
  · exact ⟨_, .dropped _ _ _ ‹_›⟩
  · rename_i hstate
    have hdone : o.state = .success := Decidable.not_not.mp hstate
    -- what follows `esp_ota_end` depends on the outcomes alone
    cases ended with
    | false => exact ⟨_, .finished _ _ _ _ [] _ hdone nofun rfl rfl rfl⟩
    | true =>
      cases booted with
      | false =>
        exact ⟨_, .finished _ _ _ _ [.setBootPartition o.partition false] _ hdone (by simp) rfl
          rfl (List.append_assoc ..)⟩
      | true =>
        cases reset with
        | false =>
          exact ⟨_, .finished _ _ _ _ [.setBootPartition o.partition true] _ hdone (by simp) rfl
            rfl (List.append_assoc ..)⟩
        | true =>
          exact ⟨_, .finished _ _ _ _ [.setBootPartition o.partition true, .restart] _ hdone
            (by simp) rfl rfl (by simp [TklOta.emit, TklOta.handleInit])⟩

/-- Every call makes one of the steps. -/
theorem otaCall_step (c : OtaCall) :
    ∃ es, OtaStep o c (otaCall o c).1 es (otaCall o c).2 := by
  cases c with
  | start imageSize partition begun => exact startNotify_step o imageSize partition begun
  | data pack remainLen written => exact dataProcess_step o pack remainLen written
  | finish reset ended booted => exact endNotify_step o reset ended booted

end

section

variable {o o' : TklOta} {c : OtaCall} {ret : OperateRet} {es : List OtaEffect}

/-- Counting logs nothing. -/
@[simp] theorem advance_log (len : UInt32) : (o.advance len).log = o.log := by
  unfold TklOta.advance
  dsimp only
  split <;> split <;> rfl

/-- A step appends its effects to the log. -/
theorem OtaStep.log (h : OtaStep o c ret es o') : o'.log = o.log ++ es := by
  cases h with
  | ignored | repeated | dropped => exact (List.append_nil _).symm
  | opened | unwritten => rfl
  | written => exact advance_log _
  | unopened _ _ _ _ _ _ _ _ _ hlog => exact hlog
  | finished _ _ _ _ _ _ _ _ _ _ hlog => exact hlog

end

/-- The calls of ESP-IDF that a call makes. -/
def otaEffects (o : TklOta) (c : OtaCall) : List OtaEffect :=
  (otaCall o c).2.log.drop o.log.length

/-- Every call makes one of the steps. -/
theorem otaCall_cases (o : TklOta) (c : OtaCall) :
    OtaStep o c (otaCall o c).1 (otaEffects o c) (otaCall o c).2 := by
  obtain ⟨es, hstep⟩ := otaCall_step o c
  have hes : otaEffects o c = es := by
    unfold otaEffects
    rw [hstep.log, List.drop_left]
  rwa [hes]

/-! ## The image -/

/-- The image has the data of the pack at its offset. -/
def HeldBy (image : List UInt8) (pack : OtaPack) : Prop :=
  (image.drop pack.offset.toNat).take pack.data.length = pack.data

instance (image : List UInt8) (pack : OtaPack) : Decidable (HeldBy image pack) :=
  inferInstanceAs (Decidable (_ = _))

section

variable {image : List UInt8} {pack : OtaPack}

/-- An empty pack is held by every image. -/
theorem heldBy_of_nil (h : pack.data = []) : HeldBy image pack := by
  simp [HeldBy, h]

/-- A pack written at its offset is held. -/
theorem heldBy_append_self (h : pack.offset.toNat = image.length) :
    HeldBy (image ++ pack.data) pack := by
  unfold HeldBy
  rw [h, List.drop_left, List.take_length]

/-- What is written later does not touch a pack that is held. -/
theorem HeldBy.append (h : HeldBy image pack) (data : List UInt8) :
    HeldBy (image ++ data) pack := by
  by_cases hnil : pack.data = []
  · exact heldBy_of_nil hnil
  · unfold HeldBy at h ⊢
    -- the data lies within the image
    have hlength := congrArg List.length h
    rw [List.length_take, List.length_drop] at hlength
    have hpos := List.length_pos_iff.mpr hnil
    -- the beginning of a longer image
    rw [List.drop_append_of_le_length (by omega), List.take_append_of_le_length, h]
    rw [List.length_drop]
    omega

end

/-- The bytes written successfully. -/
def writtenBytes (es : List OtaEffect) : List UInt8 :=
  es.flatMap fun
    | .write _ data true => data
    | _ => []

/-- The module with what was received since the last `tkl_ota_start_notify` that was
    accepted. -/
structure OtaSession where
  ota : TklOta
  /-- the size announced -/
  size : UInt32
  /-- the bytes written -/
  image : List UInt8
  /-- the packs accepted with `OPRT_OK` -/
  accepted : List OtaPack
  deriving DecidableEq, Repr

def OtaSession.init : OtaSession := ⟨.init, 0, [], []⟩

/-- The call `c` has returned `ret`, made the calls `es` of ESP-IDF and left the module as
    `o`. -/
def OtaSession.after (s : OtaSession) (c : OtaCall) (ret : OperateRet) (es : List OtaEffect)
    (o : TklOta) : OtaSession :=
  match c with
  | .start imageSize _ _ =>
    if ret = .ok then ⟨o, imageSize, [], []⟩ else { s with ota := o }
  | .data pack _ _ =>
    { s with
      ota := o
      image := s.image ++ writtenBytes es
      accepted := if ret = .ok then s.accepted ++ pack.toList else s.accepted }
  | .finish _ _ _ => { s with ota := o }

def OtaSession.step (s : OtaSession) (c : OtaCall) : OtaSession :=
  s.after c (otaCall s.ota c).1 (otaEffects s.ota c) (otaCall s.ota c).2

/-- If the call sets the boot partition, the image has the announced size and holds every
    pack accepted. -/
def BootsReceived (s : OtaSession) (c : OtaCall) : Prop :=
  ∀ partition ok, .setBootPartition partition ok ∈ otaEffects s.ota c →
    s.image.length = s.size.toNat ∧ ∀ pack ∈ s.accepted, HeldBy s.image pack

/-- A pack that is written begins where the image ends, and the image stays shorter than
    4 GiB; a pack that comes when the image is complete repeats a part of it. -/
def InOrder (s : OtaSession) : OtaCall → Prop
  | .data (some pack) (some _) written =>
    (Receiving s.ota → written = true →
      (pack.data = [] ∨ pack.offset.toNat = s.image.length) ∧
        s.image.length + pack.data.length < 2 ^ 32) ∧
    (s.ota.state = .success → HeldBy s.image pack)
  | _ => True

instance (s : OtaSession) : (c : OtaCall) → Decidable (InOrder s c)
  | .data (some _) (some _) _ => inferInstanceAs (Decidable (_ ∧ _))
  | .data none _ _ | .data (some _) none _ | .start _ _ _ | .finish _ _ _ => isTrue trivial

/-- The module knows how much was received. -/
structure Faithful (s : OtaSession) : Prop where
  size : s.ota.state ≠ .init → s.ota.imageSize = s.size
  count : s.ota.state ≠ .init → s.ota.offsetImageSize.toNat = s.image.length
  held : s.ota.state ≠ .init → ∀ pack ∈ s.accepted, HeldBy s.image pack
  complete : s.ota.state = .success → s.ota.offsetImageSize = s.ota.imageSize

/-- No session is open in the beginning. -/
theorem faithful_init : Faithful .init := ⟨nofun, nofun, nofun, nofun⟩

section

variable {o : TklOta} {s : OtaSession} {c : OtaCall}

/-- A successful write goes on or completes the image. -/
theorem advance_eq (h : Receiving o) (len : UInt32) :
    o.advance len =
      { o with
        offsetImageSize := o.offsetImageSize + len
        state := if o.offsetImageSize + len = o.imageSize then .success else .inProgress } := by
  unfold TklOta.advance
  rcases h with h | h
  · simp only [h, if_true, true_and]
    split <;> rfl
  · simp only [h, true_and, reduceCtorEq, if_false]
    split <;> simp_all

/-- Between sessions there is nothing to know. -/
theorem faithful_of_init (h : s.ota.state = .init) : Faithful s where
  size hne := absurd h hne
  count hne := absurd h hne
  held hne := absurd h hne
  complete hdone := nomatch h.symm.trans hdone

/-- The offset does not wrap round below 4 GiB. -/
theorem toNat_add_len {offset : UInt32} {pack : OtaPack}
    (h : offset.toNat + pack.data.length < 2 ^ 32) :
    (offset + pack.len).toNat = offset.toNat + pack.data.length := by
  rw [UInt32.toNat_add, OtaPack.len, UInt32.toNat_ofNat', Nat.mod_eq_of_lt pack.fits,
    Nat.mod_eq_of_lt h]

/-- The step that carries the argument: a pack that is written at the end of the image. -/
theorem Faithful.written {pack : OtaPack} {remain : UInt32} (h : Faithful s)
    (hopen : Receiving s.ota) (hord : InOrder s (.data (some pack) (some remain) true)) :
    Faithful (s.after (.data (some pack) (some remain) true) .ok
      [.write s.ota.handle pack.data true]
      ((s.ota.emit (.write s.ota.handle pack.data true)).advance pack.len)) := by
  have hne := hopen.ne_init
  obtain ⟨hplace, hfits⟩ := hord.1 hopen rfl
  have hcount := h.count hne
  -- the pack's bytes are the next ones of the image
  have himage : s.image ++ writtenBytes [.write s.ota.handle pack.data true] =
      s.image ++ pack.data := by simp [writtenBytes]
  rw [advance_eq (o := s.ota.emit _) hopen]
  unfold OtaSession.after
  rw [himage]
  constructor
  · exact fun _ => h.size hne
  · intro _
    -- no overflow, because the image stays below 4 GiB
    show (s.ota.offsetImageSize + pack.len).toNat = (s.image ++ pack.data).length
    rw [toNat_add_len (by omega), hcount, List.length_append]
  · intro _ pack' hpack
    rcases List.mem_append.mp hpack with hold | hnew
    · exact (h.held hne pack' hold).append pack.data
    · cases List.mem_singleton.mp hnew
      -- an empty pack, or one that goes on where the image ends
      rcases hplace with hnil | hoffset
      · exact heldBy_of_nil hnil
      · exact heldBy_append_self hoffset
  · intro hdone
    show s.ota.offsetImageSize + pack.len = s.ota.imageSize
    by_contra hmissing
    simp [TklOta.emit, hmissing] at hdone

/-- Calls in order keep the image faithful. -/
theorem InOrder.faithful (hord : InOrder s c) (h : Faithful s) : Faithful (s.step c) := by
  have hstep := otaCall_cases s.ota c
  unfold OtaSession.step
  generalize (otaCall s.ota c).1 = ret, otaEffects s.ota c = es, (otaCall s.ota c).2 = o
    at hstep
  cases hstep with
  | ignored _ _ hret hc =>
    -- nothing was written and no pack accepted
    cases c with
    | start => simpa [OtaSession.after, hret] using h
    | data => simpa [OtaSession.after, hret, writtenBytes] using h
    | finish reset ended booted => exact absurd rfl (hc reset ended booted)
  | unopened imageSize partition begun _ _ hinit hes hstate => exact faithful_of_init hstate
  | opened imageSize partition hinit =>
    exact ⟨fun _ => rfl, fun _ => rfl, fun _ => nofun, nofun⟩
  -- accepted without being written: the order asks that the image has it already
  | repeated pack remain written hdone =>
    simp only [OtaSession.after, writtenBytes, List.flatMap_nil, List.append_nil, if_true,
      Option.toList_some]
    refine ⟨h.size, h.count, fun hne pack' hpack => ?_, h.complete⟩
    rcases List.mem_append.mp hpack with hold | hnew
    · exact h.held hne pack' hold
    · cases List.mem_singleton.mp hnew
      exact hord.2 hdone
  | unwritten pack remain hopen =>
    simp only [OtaSession.after, writtenBytes, List.flatMap_cons, List.flatMap_nil,
      List.append_nil, reduceCtorEq, if_false]
    exact ⟨h.size, h.count, h.held, h.complete⟩
  | written pack remain hopen => exact h.written hopen hord
  | dropped reset ended booted hmissing => exact faithful_of_init rfl
  | finished _ _ _ _ _ _ hdone _ hstate => exact faithful_of_init hstate

/-- The boot partition is set only when the image is complete. -/
theorem Faithful.bootsReceived (h : Faithful s) : BootsReceived s c := by
  intro partition ok hboot
  have hstep := otaCall_cases s.ota c
  -- only the end of a complete session sets the boot partition
  have hdone : s.ota.state = .success := by
    generalize (otaCall s.ota c).1 = ret, otaEffects s.ota c = es, (otaCall s.ota c).2 = o
      at hstep hboot
    cases hstep with
    | finished _ _ _ _ _ _ hdone => exact hdone
    | unopened _ _ _ _ _ _ hes => rcases hes with rfl | rfl <;> simp at hboot
    | _ => simp at hboot
  have hne : s.ota.state ≠ .init := by rw [hdone]; nofun
  constructor
  · rw [← h.count hne, h.complete hdone, h.size hne]
  · exact h.held hne

end

/-- For every sequence of calls and every outcome of the calls of ESP-IDF: if the packs come
    in order, the boot partition is set only when the image has the announced size and
    holds every pack accepted since the session was started. -/
theorem ota_boots_received (calls : List OtaCall)
    (hcalls : Always OtaSession.step InOrder .init calls) :
    Always OtaSession.step BootsReceived .init calls :=
  hcalls.mono (I := Faithful) (fun _ _ h _ => h.bootsReceived)
    (fun _ _ h hord => hord.faithful h) faithful_init

/-- The two packs of a small image. `esp_ota_write` checks the first byte of an image, which has to
    be `E9`. -/
def firstPack : OtaPack := ⟨0, [0xE9, 2], by decide⟩

def secondPack : OtaPack := ⟨2, [0xE9, 4], by decide⟩

/-- A pack at the start of the image that is not what the first pack has put there. -/
def otherPack : OtaPack := ⟨0, [0xE9, 7], by decide⟩

/-- A session of four bytes in which the packs are written one after the other. -/
def smallSession (packs : List OtaPack) : List OtaCall :=
  .start 4 (some 1) true ::
    packs.map (fun pack => .data (some pack) (some 0) true) ++ [.finish false true true]

/-- A session with a pack that comes twice. -/
theorem ota_boots_received_small :
    Always OtaSession.step InOrder .init (smallSession [firstPack, secondPack, firstPack]) ∧
      Always OtaSession.step BootsReceived .init
        (smallSession [firstPack, secondPack, firstPack]) := by
  have horder : Always OtaSession.step InOrder .init
      (smallSession [firstPack, secondPack, firstPack]) := by decide
  exact ⟨horder, ota_boots_received _ horder⟩

/-- A pack that comes when the image is complete is accepted and not written, whatever it holds. And
    packs that are sent in another order, or twice, are appended as they come. Each time the image
    is complete by its length and becomes the boot partition. -/
theorem not_ota_boots_received :
    (∃ s, ([.start 4 (some 1) true, .data (some firstPack) (some 0) true,
          .data (some secondPack) (some 0) true, .data (some otherPack) (some 0) true] :
          List OtaCall).foldl OtaSession.step .init = s ∧
      s.image = [0xE9, 2, 0xE9, 4] ∧ otherPack ∈ s.accepted ∧
      .setBootPartition (some 1) true ∈ otaEffects s.ota (.finish false true true)) ∧
    ¬ Always OtaSession.step BootsReceived .init
      (smallSession [firstPack, secondPack, otherPack]) ∧
    ¬ Always OtaSession.step BootsReceived .init (smallSession [secondPack, firstPack]) ∧
    ¬ Always OtaSession.step BootsReceived .init
      (smallSession [firstPack, firstPack, secondPack]) := by
  refine ⟨⟨_, rfl, by decide, by decide, by decide⟩, fun h => ?_, fun h => ?_, fun h => ?_⟩
  · exact absurd ((h.2.2.2.2.1 (some 1) true (by decide)).2 otherPack (by decide)) (by decide)
  · exact absurd ((h.2.2.2.1 (some 1) true (by decide)).2 secondPack (by decide)) (by decide)
  · exact absurd ((h.2.2.2.2.1 (some 1) true (by decide)).2 secondPack (by decide)) (by decide)

/-! ## The handles -/

/-- The handles that `esp_ota_begin` has returned. -/
def openedHandles (log : List OtaEffect) : List Nat :=
  log.filterMap fun
    | .begin _ handle => handle
    | _ => none

/-- The handles passed to `esp_ota_end` or `esp_ota_abort`. -/
def closedHandles (log : List OtaEffect) : List Nat :=
  log.filterMap fun
    | .finish handle _ | .abort handle => some handle
    | _ => none

/-- No handle is released twice, and in the state `TKL_OTA_INIT` every one is released. -/
structure NoLeak (o : TklOta) : Prop where
  atMostOnce : ∀ handle ∈ openedHandles o.log, (closedHandles o.log).count handle ≤ 1
  released : o.state = .init →
    ∀ handle ∈ openedHandles o.log, (closedHandles o.log).count handle = 1

def otaStep (o : TklOta) (c : OtaCall) : TklOta := (otaCall o c).2

/-- The call leaves no handle behind. -/
def KeepsHandles (o : TklOta) (c : OtaCall) : Prop := NoLeak (otaStep o c)

/-- A session is not ended while bytes are missing. -/
def EndsComplete (o : TklOta) (c : OtaCall) : Prop :=
  ∀ reset ended booted, c = .finish reset ended booted → ¬ Receiving o

/-- Where the handles are. -/
structure HandlesKnown (o : TklOta) : Prop where
  opened_le : ∀ handle ∈ openedHandles o.log, handle ≤ o.lastHandle
  closed_le : ∀ handle ∈ closedHandles o.log, handle ≤ o.lastHandle
  /-- the handle of the session is open -/
  current : o.state ≠ .init →
    o.handle ∈ openedHandles o.log ∧ o.handle ∉ closedHandles o.log
  /-- all others are released -/
  others : ∀ handle ∈ openedHandles o.log, (o.state ≠ .init → handle ≠ o.handle) →
    (closedHandles o.log).count handle = 1

/-- No handle is open in the beginning. -/
theorem handlesKnown_init : HandlesKnown .init := ⟨nofun, nofun, nofun, nofun⟩

section

variable {o o' : TklOta} {c : OtaCall}

/-- The invariant says that no handle is lost. -/
theorem HandlesKnown.noLeak (h : HandlesKnown o) : NoLeak o where
  atMostOnce handle hopened := by
    by_cases hcurrent : o.state ≠ .init ∧ handle = o.handle
    · obtain ⟨hne, rfl⟩ := hcurrent
      -- the handle of the session has not been released yet
      rw [List.count_eq_zero_of_not_mem (h.current hne).2]
      exact Nat.zero_le 1
    · refine Nat.le_of_eq (h.others handle hopened fun hne heq => hcurrent ⟨hne, heq⟩)
  released hinit handle hopened := h.others handle hopened fun hne => absurd hinit hne

/-- Handles are opened in the order of the log, -/
theorem openedHandles_append (log es : List OtaEffect) :
    openedHandles (log ++ es) = openedHandles log ++ openedHandles es :=
  List.filterMap_append ..

/-- and closed in its order. -/
theorem closedHandles_append (log es : List OtaEffect) :
    closedHandles (log ++ es) = closedHandles log ++ closedHandles es :=
  List.filterMap_append ..

/-- Calls that neither open nor release a handle, within or between sessions. -/
theorem HandlesKnown.frame {es : List OtaEffect} (h : HandlesKnown o)
    (hlog : o'.log = o.log ++ es) (hopened : openedHandles es = [])
    (hclosed : closedHandles es = []) (hlast : o'.lastHandle = o.lastHandle)
    (hstate : o'.state = .init ↔ o.state = .init)
    (hhandle : o.state ≠ .init → o'.handle = o.handle) : HandlesKnown o' := by
  -- the step opens and closes nothing
  have hopened' : openedHandles o'.log = openedHandles o.log := by
    rw [hlog, openedHandles_append, hopened, List.append_nil]
  have hclosed' : closedHandles o'.log = closedHandles o.log := by
    rw [hlog, closedHandles_append, hclosed, List.append_nil]
  constructor
  · rw [hopened', hlast]
    exact h.opened_le
  · rw [hclosed', hlast]
    exact h.closed_le
  · intro hne
    have hne' := mt hstate.mpr hne
    rw [hopened', hclosed', hhandle hne']
    exact h.current hne'
  · intro handle hmem hother
    rw [hopened'] at hmem
    rw [hclosed']
    apply h.others handle hmem
    intro hne
    rw [← hhandle hne]
    exact hother (mt hstate.mp hne)

/-- A new handle is the current one, and not among the earlier ones. -/
theorem HandlesKnown.opened (h : HandlesKnown o) (hinit : o.state = .init)
    (imageSize : UInt32) (hlog : o'.log = o.log ++ [.begin imageSize (some (o.lastHandle + 1))])
    (hhandle : o'.handle = o.lastHandle + 1) (hlast : o'.lastHandle = o.lastHandle + 1)
    (hstate : o'.state ≠ .init) : HandlesKnown o' := by
  -- the new handle differs from all before it
  have hopened : ∀ {handle}, handle ∈ openedHandles o'.log ↔
      handle ∈ openedHandles o.log ∨ handle = o.lastHandle + 1 := by
    simp [hlog, openedHandles]
  have hclosed : closedHandles o'.log = closedHandles o.log := by
    rw [hlog, closedHandles_append]
    exact List.append_nil _
  constructor
  · intro handle hmem
    rw [hlast]
    rcases hopened.mp hmem with hold | rfl
    · exact Nat.le_succ_of_le (h.opened_le handle hold)
    · exact Nat.le_refl _
  · intro handle hmem
    rw [hclosed] at hmem
    rw [hlast]
    exact Nat.le_succ_of_le (h.closed_le handle hmem)
  · intro _
    rw [hhandle, hclosed]
    refine ⟨hopened.mpr (.inr rfl), fun hmem => ?_⟩
    -- handles are numbered upwards, so that a new one was never released
    exact absurd (h.closed_le _ hmem) (Nat.not_succ_le_self _)
  · intro handle hmem hother
    rw [hclosed]
    rcases hopened.mp hmem with hold | hnew
    · exact h.others handle hold fun hne => absurd hinit hne
    · exact absurd (hnew.trans hhandle.symm) (hother hstate)

/-- `esp_ota_end` releases the handle of the session. -/
theorem HandlesKnown.finished (h : HandlesKnown o) (hne : o.state ≠ .init) {ended : Bool}
    {tail : List OtaEffect}
    (htail : ∀ e ∈ tail, e = .restart ∨ ∃ ok, e = .setBootPartition o.partition ok)
    (hlog : o'.log = o.log ++ .finish o.handle ended :: tail)
    (hlast : o'.lastHandle = o.lastHandle) (hstate : o'.state = .init) : HandlesKnown o' := by
  -- what follows `esp_ota_end` opens and closes nothing
  have hnone : openedHandles tail = [] ∧ closedHandles tail = [] := by
    constructor <;> apply List.filterMap_eq_nil_iff.mpr <;> intro e he <;>
      rcases htail e he with rfl | ⟨ok, rfl⟩ <;> rfl
  have hopened : openedHandles o'.log = openedHandles o.log := by
    rw [hlog, openedHandles_append]
    exact (congrArg _ hnone.1).trans (List.append_nil _)
  have hclosed : closedHandles o'.log = closedHandles o.log ++ [o.handle] := by
    rw [hlog, closedHandles_append]
    exact congrArg (fun l => _ ++ o.handle :: l) hnone.2
  obtain ⟨hcurrent, hopen⟩ := h.current hne
  constructor
  · rw [hopened, hlast]
    exact h.opened_le
  · intro handle hmem
    rw [hclosed] at hmem
    rw [hlast]
    rcases List.mem_append.mp hmem with hold | hnew
    · exact h.closed_le handle hold
    · cases List.mem_singleton.mp hnew
      exact h.opened_le _ hcurrent
  · exact fun hne' => absurd hstate hne'
  · intro handle hmem _
    rw [hopened] at hmem
    rw [hclosed, List.count_append]
    -- the handle of the session is closed now, the others were before
    by_cases heq : handle = o.handle
    · subst heq
      rw [List.count_eq_zero_of_not_mem hopen, List.count_singleton_self]
    · have hfree : (closedHandles o.log).count handle = 1 := h.others handle hmem fun _ => heq
      rw [hfree, List.count_singleton, if_neg (by simpa using Ne.symm heq)]

/-- Ending only complete sessions keeps the invariant. -/
theorem EndsComplete.handlesKnown (hends : EndsComplete o c) (h : HandlesKnown o) :
    HandlesKnown (otaStep o c) := by
  have hstep := otaCall_cases o c
  unfold otaStep
  generalize (otaCall o c).1 = ret, otaEffects o c = es, (otaCall o c).2 = o' at hstep
  cases hstep with
  | ignored | repeated => exact h
  | unopened imageSize _ _ _ _ hinit hes hstate hlast hlog =>
    apply h.frame hlog _ _ hlast (iff_of_true hstate hinit) fun hne => absurd hinit hne
    · rcases hes with rfl | rfl <;> rfl
    · rcases hes with rfl | rfl <;> rfl
  | opened imageSize partition hinit => exact h.opened hinit imageSize rfl rfl rfl nofun
  | unwritten pack remain hopen => exact h.frame rfl rfl rfl rfl Iff.rfl fun _ => rfl
  | written pack remain hopen =>
    rw [advance_eq (o := o.emit _) hopen]
    refine h.frame rfl rfl rfl rfl (iff_of_false ?_ hopen.ne_init) fun _ => rfl
    dsimp only
    split <;> nofun
  | dropped reset ended booted hmissing =>
    -- no session was open
    have hinit : o.state = .init := by
      by_contra hne
      exact hends reset ended booted rfl (receiving_of_ne o hne hmissing)
    exact h.frame (List.append_nil _).symm rfl rfl rfl (iff_of_true rfl hinit) fun hne =>
      absurd hinit hne
  | finished _ _ _ _ _ _ hdone htail hstate hlast hlog =>
    exact h.finished (by rw [hdone]; nofun) htail hlog hlast hstate

/-- A session that is ended while bytes are missing leaves its handle open, and no other
    call leaves one behind. -/
theorem keepsHandles_iff_endsComplete (h : HandlesKnown o) :
    KeepsHandles o c ↔ EndsComplete o c := by
  constructor
  · rintro hkeeps reset ended booted rfl hopen
    have hstep : otaStep o (.finish reset ended booted) = o.handleInit := by
      simp [otaStep, otaCall, TklOta.endNotify, hopen.ne_success]
    unfold KeepsHandles at hkeeps
    rw [hstep] at hkeeps
    obtain ⟨hcurrent, hleft⟩ := h.current hopen.ne_init
    -- a session that is dropped leaves its handle open
    have hcount : (closedHandles o.log).count o.handle = 1 :=
      hkeeps.released rfl o.handle hcurrent
    rw [List.count_eq_zero_of_not_mem hleft] at hcount
    exact nomatch hcount
  · intro hends
    exact (hends.handlesKnown h).noLeak

end

/-- For every sequence of calls and every outcome of the calls of ESP-IDF: every handle is
    released exactly once before the module is back in its initial state, exactly if no
    session is ended while bytes are missing. -/
theorem ota_handles_released_iff (calls : List OtaCall) :
    Always otaStep KeepsHandles .init calls ↔ Always otaStep EndsComplete .init calls :=
  always_congr (I := HandlesKnown) (fun _ _ h => keepsHandles_iff_endsComplete h)
    (fun _ _ h hends => hends.handlesKnown h) handlesKnown_init

/-- The download is given up after the first of two packs: the handle stays open. -/
theorem not_ota_handles_released :
    (∃ o, ([.start 4 (some 1) true, .data (some firstPack) (some 0) true,
          .finish false true true] : List OtaCall).foldl otaStep .init = o ∧
      o.state = .init ∧ openedHandles o.log = [1] ∧ closedHandles o.log = []) ∧
    ¬ Always otaStep KeepsHandles .init
      [.start 4 (some 1) true, .data (some firstPack) (some 0) true,
        .finish false true true] := by
  refine ⟨⟨_, rfl, by decide, by decide, by decide⟩, fun h => ?_⟩
  exact absurd (h.2.2.1.released (by decide) 1 (by decide)) (by decide)

end Ivy.Spec
