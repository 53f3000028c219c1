import Mathlib.Logic.Function.Basic

/-!
# Playing an animation

`IvyAnim` holds a driver for the sound and one for the pictures of an animation. Binding
the assets of an animation makes a new driver for each file that is on the card; the
driver held before is dropped, which frees it. Playing starts a task for each driver held.
The task runs forever on a plain pointer to its driver.
-/

namespace Ivy.Native

/-- The two drivers: `AudioDriver` and `MjpegDriver`. -/
inductive AnimKind
  | audio
  | video
  deriving DecidableEq, Repr

/-- The ending of the file names. -/
def AnimKind.suffix : AnimKind → String
  | audio => ".aac"
  | video => ".mjpeg"

/-- `audio_name` and `video_name` -/
def assetName (kind : AnimKind) (name : String) : String :=
  let assetsPath := "/video" ++ "/" ++ name ++ "/"
  assetsPath ++ name ++ kind.suffix

/-- A driver object: the objects made are numbered. -/
structure AnimDriver where
  object : Nat
  /-- the file bound to it -/
  assets : String
  deriving DecidableEq, Repr

structure IvyAnim where
  /-- `m_audio_decoder` and `m_video_decoder` -/
  decoder : AnimKind → Option AnimDriver
  /-- the number of driver objects made so far -/
  nextObject : Nat
  /-- the objects freed -/
  freed : List Nat
  /-- the driver objects that play tasks run on -/
  tasks : List Nat
  /-- the drivers that `begin` was called on -/
  begun : List AnimDriver

/-- No animation was bound yet. -/
def IvyAnim.init : IvyAnim where
  decoder _ := none
  nextObject := 0
  freed := []
  tasks := []
  begun := []

namespace IvyAnim

variable (a : IvyAnim)

/-- `m_..._decoder = std::make_shared<...>()`, with `prepare_resource` and
    `anim_bind_assets` on the new driver. The pointer held before was the only one. -/
def replace (kind : AnimKind) (assets : String) : IvyAnim :=
  { a with
    decoder := Function.update a.decoder kind (some ⟨a.nextObject, assets⟩)
    nextObject := a.nextObject + 1
    freed := a.freed ++ (a.decoder kind).toList.map AnimDriver.object }

/-- One of the two halves of `bind_assets`; `card` is `SD_MMC.exists`. -/
def bindKind (card : String → Bool) (name : String) (kind : AnimKind) : IvyAnim :=
  if card (assetName kind name) then a.replace kind (assetName kind name) else a

/-- `IvyAnim::bind_assets` -/
def bindAssets (card : String → Bool) (name : String) : IvyAnim :=
  -- a kind without a file keeps the driver of the animation before
  let a := a.bindKind card name .audio
  a.bindKind card name .video

/-- `AudioDriver::begin` and `MjpegDriver::begin`; `created` is whether the task could be
    created. -/
def begin (d : AnimDriver) (created : Bool) : IvyAnim :=
  { a with
    begun := a.begun ++ [d]
    tasks := if created then a.tasks ++ [d.object] else a.tasks }

/-- One of the two halves of `play`, with `find_decoder`. -/
def playKind (kind : AnimKind) (created : Bool) : IvyAnim :=
  match a.decoder kind with
  | some d => a.begin d created
  -- no driver of this kind was ever bound
  | none => a

/-- `IvyAnim::play`; `created` is whether the task of each driver could be created. -/
def play (created : AnimKind → Bool) : IvyAnim :=
  let a := a.playKind .audio (created .audio)
  a.playKind .video (created .video)

end IvyAnim

end Ivy.Native
