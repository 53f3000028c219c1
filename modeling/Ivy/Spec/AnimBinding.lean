import Ivy.ForStd.Transition
import Ivy.Native.IvyAnim

/-!
# An animation plays its own assets

`bind_assets` replaces a driver only if the new animation has a file for it. So the driver
of an earlier animation stays where the new one has no file, and `play` starts it; and
where the new one has a file, the driver that a play task still runs on is freed. Both are
a matter of what was bound and played before, which is kept here beside the drivers.
-/

namespace Ivy.Spec

open Ivy.Native Ivy.Lts

/-! ## Histories of calls -/

inductive AnimCall
  /-- `card` is `SD_MMC.exists` at the time of the call -/
  | bindAssets (card : String → Bool) (name : String)
  /-- `created` is whether the tasks could be created -/
  | play (created : AnimKind → Bool)

/-- What the calls so far mean for one of the two drivers. -/
structure AnimTrack where
  /-- some `bind_assets` has found a file for it -/
  found : Bool
  /-- the last `bind_assets` has -/
  last : Bool
  /-- a play task was started since the last `bind_assets` that has found a file -/
  playing : Bool
  deriving DecidableEq, Repr

structure AnimHistory where
  anim : IvyAnim
  /-- the name that was bound last -/
  name : Option String
  track : AnimKind → AnimTrack

def AnimHistory.init : AnimHistory := ⟨.init, none, fun _ => ⟨false, false, false⟩⟩

def AnimTrack.bind (t : AnimTrack) (onCard : Bool) : AnimTrack :=
  if onCard then ⟨true, true, false⟩ else { t with last := false }

def AnimTrack.play (t : AnimTrack) (created : Bool) : AnimTrack :=
  { t with playing := t.playing || (t.found && created) }

def AnimHistory.step (h : AnimHistory) : AnimCall → AnimHistory
  | .bindAssets card name =>
    { anim := h.anim.bindAssets card name
      name := some name
      track := fun kind => (h.track kind).bind (card (assetName kind name)) }
  | .play created =>
    { anim := h.anim.play created
      name := h.name
      track := fun kind => (h.track kind).play (created kind) }

/-- The files that an animation has, out of the two. -/
def ownAssets (has : AnimKind → Bool) (name : String) : List String :=
  (if has .audio then [assetName .audio name] else []) ++
    (if has .video then [assetName .video name] else [])

/-- The files of the drivers started by a call. -/
def startedBy (h : AnimHistory) (c : AnimCall) : List String :=
  ((h.step c).anim.begun.drop h.anim.begun.length).map AnimDriver.assets

/-- A call of `play` starts exactly the drivers of the animation bound last, and no play
    task is left on a driver that was freed. -/
def PlaysOwn (h : AnimHistory) (c : AnimCall) : Prop :=
  (∀ created name, c = .play created → h.name = some name →
    startedBy h c = ownAssets (fun kind => (h.track kind).last) name) ∧
  ∀ task ∈ (h.step c).anim.tasks, task ∉ (h.step c).anim.freed

/-- `bind_assets` finds no file for a driver that is playing, and `play` is called only
    when the animation bound last has a file for each driver there is. -/
def Careful (h : AnimHistory) : AnimCall → Prop
  | .bindAssets card name => ∀ kind, card (assetName kind name) = true →
      (h.track kind).playing = false
  | .play _ => ∀ kind, (h.track kind).found = true → (h.track kind).last = true

/-! ## The driver objects -/

/-- What holds of the objects as long as no task runs on a freed one. -/
structure SafeObjects (a : IvyAnim) (playing : AnimKind → Bool) : Prop where
  safe : ∀ task ∈ a.tasks, task ∉ a.freed
  playing : ∀ kind, playing kind = true ↔
    ∃ d, a.decoder kind = some d ∧ d.object ∈ a.tasks
  live : ∀ kind d, a.decoder kind = some d → d.object ∉ a.freed
  apart : ∀ kind kind' d d', a.decoder kind = some d → a.decoder kind' = some d' →
    d.object = d'.object → kind = kind'
  /-- nothing beyond the frontier of allocation -/
  decoder_lt : ∀ kind d, a.decoder kind = some d → d.object < a.nextObject
  task_lt : ∀ task ∈ a.tasks, task < a.nextObject
  freed_lt : ∀ object ∈ a.freed, object < a.nextObject

/-- There is no driver in the beginning. -/
theorem safeObjects_init : SafeObjects .init fun _ => false where
  safe := nofun
  playing _ := ⟨nofun, nofun⟩
  live := nofun
  apart := nofun
  decoder_lt := nofun
  task_lt := nofun
  freed_lt := nofun

section

variable {a : IvyAnim} {playing : AnimKind → Bool} {kind : AnimKind} {assets : String}

/-- The new driver is the one that is held. -/
@[simp] theorem replace_decoder_self :
    (a.replace kind assets).decoder kind = some ⟨a.nextObject, assets⟩ :=
  Function.update_self ..

/-- The driver of the other kind stays. -/
theorem replace_decoder_of_ne {kind' : AnimKind} (h : kind' ≠ kind) :
    (a.replace kind assets).decoder kind' = a.decoder kind' :=
  Function.update_of_ne h ..

/-- The driver held after a replacement is the new one or one of the other kind. -/
theorem replace_decoder_cases {kind' : AnimKind} {d : AnimDriver}
    (hd : (a.replace kind assets).decoder kind' = some d) :
    kind' = kind ∧ d = ⟨a.nextObject, assets⟩ ∨ kind' ≠ kind ∧ a.decoder kind' = some d := by
  by_cases hkind : kind' = kind
  · subst hkind
    rw [replace_decoder_self] at hd
    exact .inl ⟨rfl, (Option.some.inj hd).symm⟩
  · rw [replace_decoder_of_ne hkind] at hd
    exact .inr ⟨hkind, hd⟩

/-- A replacement frees the driver that was held, and nothing else. -/
theorem mem_replace_freed {object : Nat} :
    object ∈ (a.replace kind assets).freed ↔
      object ∈ a.freed ∨ ∃ d, a.decoder kind = some d ∧ d.object = object := by
  simp [IvyAnim.replace]

/-- A driver that no task runs on can be replaced. -/
theorem SafeObjects.replace (h : SafeObjects a playing) (hidle : playing kind = false) :
    SafeObjects (a.replace kind assets) playing := by
  -- neither a task nor a driver that is held has the number of the new object
  have hidle' : ∀ d, a.decoder kind = some d → d.object ∉ a.tasks := by
    intro d hd htask
    have hplaying := (h.playing kind).mpr ⟨d, hd, htask⟩
    rw [hidle] at hplaying
    exact nomatch hplaying
  constructor
  · intro task htask hfreed
    rcases mem_replace_freed.mp hfreed with hold | ⟨d, hd, rfl⟩
    · exact h.safe task htask hold
    · exact hidle' d hd htask
  · intro kind'
    by_cases hkind : kind' = kind
    · subst hkind
      rw [hidle, replace_decoder_self]
      constructor
      · exact nofun
      · rintro ⟨d, hd, htask⟩
        cases hd
        exact absurd (h.task_lt _ htask) (Nat.lt_irrefl _)
    · rw [replace_decoder_of_ne hkind]
      exact h.playing kind'
  · intro kind' d hd hfreed
    -- the new object has a number that was never used; the other driver is not the one that is
    -- freed
    rcases replace_decoder_cases hd with ⟨rfl, rfl⟩ | ⟨hkind, hd⟩
    · rcases mem_replace_freed.mp hfreed with hold | ⟨d, hd, hobject⟩
      · exact absurd (h.freed_lt _ hold) (Nat.lt_irrefl _)
      · exact Nat.ne_of_lt (h.decoder_lt _ d hd) hobject
    · rcases mem_replace_freed.mp hfreed with hold | ⟨d', hd', hobject⟩
      · exact h.live kind' d hd hold
      · exact hkind (h.apart _ _ d d' hd hd' hobject.symm)
  · intro kind₁ kind₂ d₁ d₂ hd₁ hd₂ hobject
    -- each of the two drivers is the new one or an old one
    rcases replace_decoder_cases hd₁ with ⟨h₁, rfl⟩ | ⟨-, hd₁⟩ <;>
      rcases replace_decoder_cases hd₂ with ⟨h₂, rfl⟩ | ⟨-, hd₂⟩
    · rw [h₁, h₂]
    · exact absurd hobject.symm (Nat.ne_of_lt (h.decoder_lt _ _ hd₂))
    · exact absurd hobject (Nat.ne_of_lt (h.decoder_lt _ _ hd₁))
    · exact h.apart _ _ _ _ hd₁ hd₂ hobject
  · intro kind' d hd
    rcases replace_decoder_cases hd with ⟨-, rfl⟩ | ⟨-, hd⟩
    · exact Nat.lt_succ_self _
    · exact Nat.lt_succ_of_lt (h.decoder_lt kind' d hd)
  · exact fun task htask => Nat.lt_succ_of_lt (h.task_lt task htask)
  · intro object hfreed
    rcases mem_replace_freed.mp hfreed with hold | ⟨d, hd, rfl⟩
    · exact Nat.lt_succ_of_lt (h.freed_lt object hold)
    · exact Nat.lt_succ_of_lt (h.decoder_lt kind d hd)

/-- One half of `bind_assets`, if the driver that it replaces is not playing. -/
theorem SafeObjects.bindKind {card : String → Bool} {name : String} (h : SafeObjects a playing)
    (hidle : card (assetName kind name) = true → playing kind = false) :
    SafeObjects (a.bindKind card name kind) playing := by
  unfold IvyAnim.bindKind
  split
  · rename_i hcard
    exact h.replace (hidle hcard)
  · exact h

/-- A task that is created runs on the driver held. -/
theorem SafeObjects.playKind (h : SafeObjects a playing) (kind : AnimKind) (created : Bool) :
    SafeObjects (a.playKind kind created)
      (Function.update playing kind
        (playing kind || ((a.decoder kind).isSome && created))) := by
  unfold IvyAnim.playKind
  cases hd : a.decoder kind with
  | none =>
    simp only [Option.isSome_none, Bool.false_and, Bool.or_false, Function.update_eq_self]
    exact h
  | some d =>
    cases created with
    | false =>
      simp only [Bool.and_false, Bool.or_false, Function.update_eq_self]
      exact ⟨h.safe, h.playing, h.live, h.apart, h.decoder_lt, h.task_lt, h.freed_lt⟩
    | true =>
      -- the task of `d` comes to the others
      have hmem : ∀ {task}, task ∈ a.tasks ++ [d.object] ↔ task ∈ a.tasks ∨ task = d.object :=
        by simp
      simp only [Option.isSome_some, Bool.and_true, Bool.or_true]
      constructor
      · intro task htask
        rcases hmem.mp htask with hold | rfl
        · exact h.safe task hold
        · exact h.live kind d hd
      · intro kind'
        show _ ↔ ∃ d', a.decoder kind' = some d' ∧ d'.object ∈ a.tasks ++ [d.object]
        by_cases hkind : kind' = kind
        · subst hkind
          rw [Function.update_self]
          exact iff_of_true rfl ⟨d, hd, hmem.mpr (.inr rfl)⟩
        · rw [Function.update_of_ne hkind, h.playing kind']
          constructor
          · rintro ⟨d', hd', htask⟩
            exact ⟨d', hd', hmem.mpr (.inl htask)⟩
          · rintro ⟨d', hd', htask⟩
            rcases hmem.mp htask with hold | hnew
            · exact ⟨d', hd', hold⟩
            · -- two kinds never share an object
              exact absurd (h.apart _ _ d' d hd' hd hnew) hkind
      · exact h.live
      · exact h.apart
      · exact h.decoder_lt
      · intro task htask
        rcases hmem.mp htask with hold | rfl
        · exact h.task_lt task hold
        · exact h.decoder_lt kind d hd
      · exact h.freed_lt

/-! ## The two calls -/

section

variable {card : String → Bool} {name : String}

/-- Binding neither starts nor ends a task. -/
@[simp] theorem bindKind_tasks : (a.bindKind card name kind).tasks = a.tasks := by
  unfold IvyAnim.bindKind
  split <;> rfl

/-- Binding starts no driver. -/
@[simp] theorem bindKind_begun : (a.bindKind card name kind).begun = a.begun := by
  unfold IvyAnim.bindKind
  split <;> rfl

/-- One half of `bind_assets` leaves the other driver as it is. -/
theorem bindKind_decoder_of_ne {kind' : AnimKind} (h : kind' ≠ kind) :
    (a.bindKind card name kind).decoder kind' = a.decoder kind' := by
  unfold IvyAnim.bindKind
  split
  · exact replace_decoder_of_ne h
  · rfl

/-- With a file there is a new driver for it. -/
theorem bindKind_decoder_found (h : card (assetName kind name) = true) :
    (a.bindKind card name kind).decoder kind = some ⟨a.nextObject, assetName kind name⟩ := by
  simp [IvyAnim.bindKind, h]

/-- Without a file the driver of an earlier animation stays. -/
theorem bindKind_decoder_missing (h : card (assetName kind name) = false) :
    (a.bindKind card name kind).decoder kind = a.decoder kind := by
  simp [IvyAnim.bindKind, h]

/-- What has been freed stays freed. -/
theorem mem_bindKind_freed {object : Nat} (h : object ∈ a.freed) :
    object ∈ (a.bindKind card name kind).freed := by
  unfold IvyAnim.bindKind
  split
  · exact mem_replace_freed.mpr (.inl h)
  · exact h

/-- A driver is freed when a file for its kind is found. -/
theorem bindKind_freed {d : AnimDriver} (hcard : card (assetName kind name) = true)
    (hd : a.decoder kind = some d) : d.object ∈ (a.bindKind card name kind).freed := by
  rw [IvyAnim.bindKind, if_pos hcard]
  exact mem_replace_freed.mpr (.inr ⟨d, hd, rfl⟩)

/-- Video and audio have drivers of their own. -/
theorem video_ne_audio : AnimKind.video ≠ .audio := nofun

/-- A driver is freed when `bind_assets` finds a file for its kind. -/
theorem bindAssets_freed {d : AnimDriver} (hcard : card (assetName kind name) = true)
    (hd : a.decoder kind = some d) : d.object ∈ (a.bindAssets card name).freed := by
  unfold IvyAnim.bindAssets
  cases kind with
  | audio => exact mem_bindKind_freed (bindKind_freed hcard hd)
  | video =>
    -- the first half leaves the driver of the second alone
    exact bindKind_freed hcard ((bindKind_decoder_of_ne video_ne_audio).trans hd)

/-- `bind_assets` neither starts nor ends a task. -/
@[simp] theorem bindAssets_tasks : (a.bindAssets card name).tasks = a.tasks := by
  simp [IvyAnim.bindAssets]

/-- With a file the driver is one for this file. -/
theorem bindAssets_found (h : card (assetName kind name) = true) :
    ∃ object, (a.bindAssets card name).decoder kind = some ⟨object, assetName kind name⟩ := by
  unfold IvyAnim.bindAssets
  cases kind with
  | audio =>
    exact ⟨_, (bindKind_decoder_of_ne video_ne_audio.symm).trans (bindKind_decoder_found h)⟩
  | video => exact ⟨_, bindKind_decoder_found h⟩

/-- Without a file the driver is the one from before. -/
theorem bindAssets_missing (h : card (assetName kind name) = false) :
    (a.bindAssets card name).decoder kind = a.decoder kind := by
  unfold IvyAnim.bindAssets
  cases kind with
  | audio =>
    -- the second half leaves what the first one has left
    exact (bindKind_decoder_of_ne video_ne_audio.symm).trans (bindKind_decoder_missing h)
  | video => exact (bindKind_decoder_missing h).trans (bindKind_decoder_of_ne video_ne_audio)

/-- `bind_assets` is safe if none of the drivers that it replaces is playing. -/
theorem SafeObjects.bindAssets (h : SafeObjects a playing)
    (hidle : ∀ kind, card (assetName kind name) = true → playing kind = false) :
    SafeObjects (a.bindAssets card name) playing :=
  (h.bindKind (hidle .audio)).bindKind (hidle .video)

end

section

variable {created : AnimKind → Bool}

/-- Playing replaces no driver. -/
@[simp] theorem playKind_decoder (created : Bool) :
    (a.playKind kind created).decoder = a.decoder := by
  unfold IvyAnim.playKind
  split <;> rfl

/-- Playing frees no driver. -/
@[simp] theorem playKind_freed (created : Bool) :
    (a.playKind kind created).freed = a.freed := by
  unfold IvyAnim.playKind
  split <;> rfl

/-- The driver is started, if there is one, also if its task cannot be created. -/
theorem playKind_begun (created : Bool) :
    (a.playKind kind created).begun = a.begun ++ (a.decoder kind).toList := by
  unfold IvyAnim.playKind
  cases a.decoder kind with
  | none => exact (List.append_nil _).symm
  | some d => rfl

/-- `play` replaces no driver. -/
@[simp] theorem play_decoder : (a.play created).decoder = a.decoder := by
  simp [IvyAnim.play]

/-- `play` starts both drivers, the one for the sound first. -/
theorem play_begun : (a.play created).begun =
    a.begun ++ ((a.decoder .audio).toList ++ (a.decoder .video).toList) := by
  simp [IvyAnim.play, playKind_begun]

/-- `play` is safe: its tasks run on drivers that are held. -/
theorem SafeObjects.play (h : SafeObjects a playing) :
    SafeObjects (a.play created)
      fun kind => playing kind || ((a.decoder kind).isSome && created kind) := by
  have hboth := (h.playKind .audio (created .audio)).playKind .video (created .video)
  unfold IvyAnim.play
  -- the two halves change the flags of different kinds
  convert hboth using 1
  funext kind
  cases kind <;> simp [Function.update]

end

end

/-! ## Sequences of calls -/

/-- The history says how the drivers stand. -/
structure AnimHistory.Tracked (h : AnimHistory) : Prop where
  objects : SafeObjects h.anim fun kind => (h.track kind).playing
  found : ∀ kind, (h.track kind).found = (h.anim.decoder kind).isSome
  last : ∀ kind, (h.track kind).last = true →
    ∃ name object, h.name = some name ∧
      h.anim.decoder kind = some ⟨object, assetName kind name⟩
  unbound : h.name = none → ∀ kind, (h.track kind).found = false

/-- Nothing has been bound in the beginning. -/
theorem tracked_init : AnimHistory.init.Tracked where
  objects := safeObjects_init
  found _ := rfl
  last := nofun
  unbound _ _ := rfl

section

variable {h : AnimHistory}

/-- After `bind_assets` no task runs on a freed driver exactly if none of the drivers that
    it has replaced was playing. -/
theorem playsOwn_bindAssets_iff (ht : h.Tracked) (card : String → Bool) (name : String) :
    PlaysOwn h (.bindAssets card name) ↔ Careful h (.bindAssets card name) := by
  constructor
  · rintro ⟨-, hsafe⟩ kind hcard
    -- a driver that is playing is freed while its task goes on
    apply Bool.eq_false_iff.mpr
    intro hplaying
    obtain ⟨d, hd, htask⟩ := (ht.objects.playing kind).mp hplaying
    apply hsafe d.object
    · show d.object ∈ (h.anim.bindAssets card name).tasks
      rwa [bindAssets_tasks]
    · exact bindAssets_freed hcard hd
  · intro hcareful
    exact ⟨nofun, (ht.objects.bindAssets hcareful).safe⟩

/-- What `play` starts are the files of the drivers that are held. -/
theorem startedBy_play (created : AnimKind → Bool) :
    startedBy h (.play created) =
      ((h.anim.decoder .audio).toList ++ (h.anim.decoder .video).toList).map
        AnimDriver.assets := by
  show ((h.anim.play created).begun.drop h.anim.begun.length).map AnimDriver.assets = _
  rw [play_begun, List.drop_left]

/-- The driver of a kind is started for the animation bound last, or not at all. -/
theorem AnimHistory.Tracked.own (ht : h.Tracked) {name : String} (hname : h.name = some name)
    {kind : AnimKind} (hlast : (h.track kind).found = true → (h.track kind).last = true) :
    (h.anim.decoder kind).toList.map AnimDriver.assets =
      if (h.track kind).last then [assetName kind name] else [] := by
  -- the driver is that of the last animation, or there is none
  cases hl : (h.track kind).last with
  | true =>
    obtain ⟨name', object, hname', hd⟩ := ht.last kind hl
    cases hname.symm.trans hname'
    rw [hd]
    rfl
  | false =>
    cases hd : h.anim.decoder kind with
    | none => rfl
    | some d =>
      rw [ht.found, hd, hl] at hlast
      exact nomatch hlast rfl

/-- An animation has as many files as there are kinds of which it has one. -/
theorem length_ownAssets (has : AnimKind → Bool) (name : String) :
    (ownAssets has name).length =
      (if has .audio then 1 else 0) + (if has .video then 1 else 0) := by
  unfold ownAssets
  cases has .audio <;> cases has .video <;> rfl

/-- A file that was found by the last call was found by some call. -/
theorem found_of_last (ht : h.Tracked) (kind : AnimKind) (hl : (h.track kind).last = true) :
    (h.track kind).found = true := by
  obtain ⟨_, _, -, hd⟩ := ht.last kind hl
  rw [ht.found, hd]
  rfl

/-- `play` starts the drivers of the animation bound last exactly if it has a file for each
    driver there is. -/
theorem playsOwn_play_iff (ht : h.Tracked) (created : AnimKind → Bool) :
    PlaysOwn h (.play created) ↔ Careful h (.play created) := by
  constructor
  · rintro ⟨hown, -⟩
    cases hname : h.name with
    | none =>
      intro kind hfound
      rw [ht.unbound hname] at hfound
      exact nomatch hfound
    | some name =>
      -- there are as many drivers as files of the animation
      have hlength := congrArg List.length (hown created name rfl hname)
      rw [startedBy_play, length_ownAssets, List.length_map, List.length_append,
        Option.length_toList, Option.length_toList, ← ht.found, ← ht.found] at hlength
      have haudio := found_of_last ht .audio
      have hvideo := found_of_last ht .video
      intro kind hfound
      cases kind <;> grind
  · intro hcareful
    refine ⟨fun created' name hc hname => ?_, (ht.objects.play).safe⟩
    cases hc
    rw [startedBy_play, List.map_append, ownAssets, ht.own hname (hcareful .audio),
      ht.own hname (hcareful .video)]

/-- A careful call keeps the history in step with the drivers. -/
theorem Careful.tracked {c : AnimCall} (hcareful : Careful h c) (ht : h.Tracked) :
    (h.step c).Tracked := by
  cases c with
  | bindAssets card name =>
    have hobjects : SafeObjects (h.anim.bindAssets card name) _ :=
      ht.objects.bindAssets hcareful
    constructor
    · -- the drivers replaced were not playing, so nothing changes
      show SafeObjects (h.anim.bindAssets card name) _
      convert hobjects using 1
      funext kind
      cases hcard : card (assetName kind name) with
      | true => simpa [AnimHistory.step, AnimTrack.bind, hcard] using (hcareful kind hcard).symm
      | false => simp [AnimHistory.step, AnimTrack.bind, hcard]
    · intro kind
      cases hcard : card (assetName kind name) with
      | true =>
        obtain ⟨object, hd⟩ := bindAssets_found (a := h.anim) hcard
        simp [AnimHistory.step, AnimTrack.bind, hcard, hd]
      | false =>
        simp [AnimHistory.step, AnimTrack.bind, hcard, bindAssets_missing hcard, ht.found]
    · intro kind hlast
      cases hcard : card (assetName kind name) with
      | true =>
        obtain ⟨object, hd⟩ := bindAssets_found (a := h.anim) hcard
        exact ⟨name, object, rfl, hd⟩
      | false => simp [AnimHistory.step, AnimTrack.bind, hcard] at hlast
    · exact nofun
  | play created =>
    constructor
    · -- a kind has a driver exactly if a file was found for it
      show SafeObjects (h.anim.play created) _
      convert ht.objects.play using 2
      simp [AnimHistory.step, AnimTrack.play, ht.found]
    · intro kind
      simp [AnimHistory.step, AnimTrack.play, ht.found]
    · intro kind hlast
      obtain ⟨name, object, hname, hd⟩ := ht.last kind hlast
      exact ⟨name, object, hname, by simpa [AnimHistory.step] using hd⟩
    · exact ht.unbound

/-- One call plays the animation's own assets exactly if it is careful. -/
theorem playsOwn_iff_careful {c : AnimCall} (ht : h.Tracked) :
    PlaysOwn h c ↔ Careful h c := by
  cases c with
  | bindAssets card name => exact playsOwn_bindAssets_iff ht card name
  | play created => exact playsOwn_play_iff ht created

end

/-- For every sequence of calls on every content of the card: `play` starts exactly the
    drivers of the animation bound last, and no play task is left on a freed driver,
    exactly if every call is careful. -/
theorem plays_own_assets_iff (calls : List AnimCall) :
    Always AnimHistory.step PlaysOwn .init calls ↔
      Always AnimHistory.step Careful .init calls :=
  always_congr (I := AnimHistory.Tracked) (fun _ _ ht => playsOwn_iff_careful ht)
    (fun _ _ ht hcareful => hcareful.tracked ht) tracked_init

/-- The animation `wave` has sound, the animation `rest` has not; both have pictures. -/
def someCard (path : String) : Bool :=
  path == assetName .audio "wave" || path == assetName .video "wave" ||
    path == assetName .video "rest"

/-- The sound of the first animation is played with the pictures of the second, and the
    task of the first pictures runs on a driver that was freed. -/
theorem not_plays_own_assets :
    (∃ h, [.bindAssets someCard "wave", .bindAssets someCard "rest"].foldl
        AnimHistory.step .init = h ∧
      startedBy h (.play fun _ => true) = ["/video/wave/wave.aac", "/video/rest/rest.mjpeg"]) ∧
    (∃ h, [.bindAssets someCard "wave", .play fun _ => true, .bindAssets someCard "rest"].foldl
        AnimHistory.step .init = h ∧ 1 ∈ h.anim.tasks ∧ 1 ∈ h.anim.freed) ∧
    ¬ Always AnimHistory.step PlaysOwn .init
      [.bindAssets someCard "wave", .play fun _ => true, .bindAssets someCard "rest"] := by
  refine ⟨⟨_, rfl, by decide⟩, ⟨_, rfl, by decide, by decide⟩, fun h => ?_⟩
  exact h.2.2.1.2 1 (by decide) (by decide)

end Ivy.Spec
