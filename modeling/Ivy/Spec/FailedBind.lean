import Ivy.Native.MjpegDriver

/-!
# Binding a file that has nothing to play

`MjpegDriver::anim_bind_assets` sets `m_playing` and replaces the file before it finds out that
there is nothing in it. So a driver that was stopped counts as playing after a bind that has failed
on it, and refuses every bind after it until it is stopped.
-/

namespace Ivy.Spec

open Ivy.Native

/-- If the bind fails, `is_playing()` and all fields are as before. -/
def BindKeeps (d : MjpegDriver) (a : Asset) : Prop :=
  (d.animBindAssets a).1 = false → { (d.animBindAssets a).2 with log := d.log } = d

/-- The driver after a sequence of binds. -/
def bindAll (d : MjpegDriver) (assets : List Asset) : MjpegDriver :=
  assets.foldl (fun d a => (d.animBindAssets a).2) d

/-- All binds of the sequence fail. -/
def AllFail : MjpegDriver → List Asset → Prop
  | _, [] => True
  | d, a :: assets => (d.animBindAssets a).1 = false ∧ AllFail (d.animBindAssets a).2 assets

section

variable {d : MjpegDriver}

/-- A driver that plays refuses the file. -/
theorem animBindAssets_of_playing (h : d.playing = true) (a : Asset) :
    d.animBindAssets a = (false, d) := if_pos h

/-- A stopped driver plays from then on, whether the file has content or not. -/
theorem animBindAssets_of_stopped (h : d.playing = false) (a : Asset) :
    d.animBindAssets a =
      (!a.bytes.isEmpty, { d with playing := true, animFile := .openAsset a, log := [] }) :=
  if_neg (by simp [h])

/-- A driver that plays stays as it is. -/
theorem bindAll_of_playing (h : d.playing = true) (assets : List Asset) : bindAll d assets = d := by
  induction assets with
  | nil => rfl
  | cons a assets ih =>
    show bindAll (d.animBindAssets a).2 assets = d
    rw [animBindAssets_of_playing h]
    exact ih

/-- After one bind or more, the driver plays. -/
theorem bindAll_playing (a : Asset) (assets : List Asset) :
    (bindAll d (a :: assets)).playing = true := by
  have hbound : (d.animBindAssets a).2.playing = true := by
    cases h : d.playing with
    | true => rw [animBindAssets_of_playing h]; exact h
    | false => rw [animBindAssets_of_stopped h]
  show (bindAll (d.animBindAssets a).2 assets).playing = true
  rw [bindAll_of_playing hbound]
  exact hbound

/-- When a failed bind leaves the driver as it was. -/
theorem bindKeeps_iff (a : Asset) : BindKeeps d a ↔ d.playing = true ∨ a.bytes ≠ [] := by
  unfold BindKeeps
  cases h : d.playing with
  | true =>
    rw [animBindAssets_of_playing h]
    simp
  | false =>
    rw [animBindAssets_of_stopped h]
    by_cases hempty : a.bytes = []
    · -- the bind fails, and the driver plays
      have hne : { d with playing := true, animFile := File.openAsset a } ≠ d := by
        intro heq
        have hplaying := congrArg MjpegDriver.playing heq
        rw [h] at hplaying
        exact nomatch hplaying
      simpa [hempty] using hne
    · simp [hempty]

end

/-- For every driver: a failed bind changes nothing exactly if the driver plays or the asset has
    content, and after failed binds on a stopped driver an asset with content can be bound exactly
    if there were none. -/
theorem failed_bind_iff (d : MjpegDriver) :
    (∀ a, BindKeeps d a ↔ d.playing = true ∨ a.bytes ≠ []) ∧
      (d.playing = false → ∀ assets b, AllFail d assets → b.bytes ≠ [] →
        (((bindAll d assets).animBindAssets b).1 = true ↔ assets = [])) := by
  refine ⟨bindKeeps_iff, fun hstopped assets b _ hb => ?_⟩
  cases assets with
  | nil =>
    rw [show bindAll d [] = d from rfl, animBindAssets_of_stopped hstopped]
    simpa using hb
  | cons a assets =>
    -- the first of the failed binds has set `m_playing`, so that the last one is refused
    rw [animBindAssets_of_playing (bindAll_playing a assets)]
    simp

/-- On a new driver, an empty asset and then one with content. -/
theorem not_failed_bind :
    ∃ empty full : Asset, full.bytes ≠ [] ∧
      (({} : MjpegDriver).animBindAssets empty).1 = false ∧ ¬ BindKeeps {} empty ∧
      (bindAll {} [empty]).playing = true ∧
      ((bindAll {} [empty]).animBindAssets full).1 = false := by
  refine ⟨⟨[], by decide⟩, ⟨[0], by decide⟩, by decide, by decide, ?_, by decide, by decide⟩
  intro h
  exact nomatch congrArg MjpegDriver.playing (h rfl)

end Ivy.Spec
