import Ivy.ForStd.Transition
import Ivy.Native.Led

/-!
# Brightness and duty

`get_current_percent` tells how bright the LED is of 2047 steps, for the target of the last call and
for the duty that was last set, also when a call was skipped because the percentage had not changed.
This holds for the first object. A later one divides by whatever its memory held: by zero, or by
another maximum.

## Key results

- `fadeToDc_right_iff`, `fadeToEnd_right_iff`: one call, for any value in `m_max_dc`
- `brightness_iff`: every sequence of constructions and calls
-/

namespace Ivy.Spec

open Ivy.Native Ivy.Lts

/-- The maximum of the 11 bit timer. -/
def ledMax : Nat := 2047

/-- The duty last set on the object, 0 if none was. -/
def lastDuty (l : Led) : Nat := (l.fades.head?.map fun f => f.duty.toNat).getD 0

/-- The percentage is that of the duty last set. -/
def Tracked (l : Led) : Prop := l.currentPercent.toNat = 100 * lastDuty l / ledMax

instance (l : Led) : Decidable (Tracked l) := inferInstanceAs (Decidable (_ = _))

/-- The result of a call that asked for the duty `t`: no division by zero, and the percentage is
    that of `t` and of the duty last set. -/
def FadedTo (t : Nat) (r : Option Led) : Prop :=
  ∃ l, r = some l ∧ l.currentPercent.toNat = 100 * t / ledMax ∧ Tracked l

/-! ## One call -/

section

variable {l : Led} (block : Bool) (fadeT : UInt16)

/-- A call to a duty: the percentage it computes has to be that of the duty, whether or not the call
    is skipped. -/
theorem fadeToDc_iff (hl : Tracked l) (target : UInt32) (t : Nat) :
    FadedTo t (l.fadeToDc target block fadeT) ↔
      l.maxDc ≠ 0 ∧ (target * 100 / l.maxDc).toNat = 100 * t / ledMax ∧
        (l.currentPercent = target * 100 / l.maxDc ∨
          100 * target.toNat / ledMax = 100 * t / ledMax) := by
  unfold Led.fadeToDc FadedTo
  -- a maximum of zero is a division by zero
  by_cases hzero : l.maxDc = 0
  · rw [if_pos hzero]
    exact ⟨fun ⟨_, h, _⟩ => absurd h nofun, fun h => absurd hzero h.1⟩
  · rw [if_neg hzero]
    dsimp only
    split
    · -- the percentage is shown already: the call is skipped, and the duty stays
      rename_i hsame
      constructor
      · rintro ⟨l', heq, hpercent, -⟩
        cases heq
        exact ⟨hzero, hsame ▸ hpercent, Or.inl hsame⟩
      · rintro ⟨-, hpercent, -⟩
        exact ⟨l, rfl, hsame ▸ hpercent, hl⟩
    · -- a new fade, whose duty is the target
      rename_i hsame
      constructor
      · rintro ⟨l', heq, hpercent, htracked⟩
        cases heq
        exact ⟨hzero, hpercent, Or.inr (htracked.symm.trans hpercent)⟩
      · rintro ⟨-, hpercent, hor⟩
        exact ⟨_, rfl, hpercent, hpercent.trans (hor.resolve_left hsame).symm⟩

/-- The percentage is computed without overflow. -/
theorem toNat_percent {target : UInt32} (ht : target.toNat ≤ ledMax) (max : UInt32) :
    (target * 100 / max).toNat = 100 * target.toNat / max.toNat := by
  -- 2047 times 100 is far below `2 ^ 32`
  have hprod : (target * 100).toNat = 100 * target.toNat := by
    rw [UInt32.toNat_mul, show (100 : UInt32).toNat = 100 from rfl]
    unfold ledMax at ht
    omega
  rw [UInt32.toNat_div, hprod]

/-- `fade_to_dc` on an object with any maximum. -/
theorem fadeToDc_right_iff (hl : Tracked l) (target : UInt32) (ht : target.toNat ≤ ledMax) :
    FadedTo target.toNat (l.fadeToDc target block fadeT) ↔
      l.maxDc ≠ 0 ∧ 100 * target.toNat / l.maxDc.toNat = 100 * target.toNat / ledMax := by
  rw [fadeToDc_iff block fadeT hl, toNat_percent ht]
  exact ⟨fun h => ⟨h.1, h.2.1⟩, fun h => ⟨h.1, h.2, Or.inr rfl⟩⟩

/-- The full brightness is a hundred percent if the product does not overflow. -/
theorem toNat_full_percent {max : UInt32} (hmax : max ≠ 0) :
    (max * 100 / max).toNat = 100 ↔ 100 * max.toNat < 2 ^ 32 := by
  have hpos : 0 < max.toNat := Nat.pos_of_ne_zero fun h => hmax (UInt32.toNat_inj.mp h)
  rw [UInt32.toNat_div, UInt32.toNat_mul, show (100 : UInt32).toNat = 100 from rfl]
  constructor
  · intro h
    by_contra hwrap
    -- the product has wrapped, so that it is below 100 times the divisor
    have hlt : max.toNat * 100 % 2 ^ 32 < 100 * max.toNat := by omega
    have hdiv := (Nat.div_lt_iff_lt_mul hpos).mpr hlt
    omega
  · intro h
    rw [Nat.mod_eq_of_lt (by omega), Nat.mul_div_cancel_left 100 hpos]

/-- `fade_to_end` on an object with any maximum. -/
theorem fadeToEnd_right_iff (hl : Tracked l) (on : Bool) :
    FadedTo (if on then ledMax else 0) (l.fadeToEnd on block fadeT) ↔
      l.maxDc ≠ 0 ∧ (on = true → 100 * l.maxDc.toNat < 2 ^ 32 ∧
        (l.currentPercent = 100 ∨ 2047 ≤ l.maxDc.toNat ∧ l.maxDc.toNat ≤ 2067)) := by
  unfold Led.fadeToEnd
  cases on with
  | false =>
    rw [if_neg Bool.false_ne_true, if_neg Bool.false_ne_true]
    -- off is the duty 0, which has no percentage to be wrong about
    have h := fadeToDc_right_iff block fadeT hl 0 (by decide)
    rw [show (0 : UInt32).toNat = 0 from rfl] at h
    rw [h]
    simp
  | true =>
    rw [if_pos rfl, if_pos rfl, fadeToDc_iff block fadeT hl]
    apply and_congr_right
    intro hmax
    rw [show 100 * ledMax / ledMax = 100 from rfl, toNat_full_percent hmax]
    -- the maximum is taken for the duty cycle itself
    have hrange : 100 * l.maxDc.toNat / ledMax = 100 ↔
        2047 ≤ l.maxDc.toNat ∧ l.maxDc.toNat ≤ 2067 := by
      unfold ledMax
      omega
    rw [hrange]
    simp only [true_implies]
    apply and_congr_right
    intro hfit
    -- the percentage that is remembered is the full one
    have hfull : l.maxDc * 100 / l.maxDc = 100 :=
      UInt32.toNat_inj.mp ((toNat_full_percent hmax).mpr hfit)
    rw [hfull]

end

/-! ## Every sequence -/

/-- What is done with the LEDs; an object is named by its place in the order of construction. -/
inductive LedOp
  | construct (memory : UInt32)
  | fadeToDc (i : Nat) (target : UInt32) (fits : target.toNat ≤ ledMax) (block : Bool)
      (fadeT : UInt16)
  | fadeToEnd (i : Nat) (on block : Bool) (fadeT : UInt16)

namespace LedOp

/-- The call on an object. -/
def call (l : Led) : LedOp → Option Led
  | construct _ => some l
  | fadeToDc _ target _ block fadeT => l.fadeToDc target block fadeT
  | fadeToEnd _ on block fadeT => l.fadeToEnd on block fadeT

/-- The duty that is asked for. -/
def target : LedOp → Nat
  | construct _ => 0
  | fadeToDc _ target _ _ _ => target.toNat
  | fadeToEnd _ on _ _ => if on then ledMax else 0

/-- The object that is called. -/
def index : LedOp → Option Nat
  | construct _ => none
  | fadeToDc i _ _ _ _ => some i
  | fadeToEnd i _ _ _ => some i

/-- What the value in `m_max_dc` has to be for the call. For every call on the first object it is
    2047, which is enough. -/
def Fits (l : Led) : LedOp → Prop
  | construct _ => True
  | fadeToDc _ target _ _ _ =>
    l.maxDc ≠ 0 ∧ 100 * target.toNat / l.maxDc.toNat = 100 * target.toNat / ledMax
  | fadeToEnd _ on _ _ =>
    l.maxDc ≠ 0 ∧ (on = true → 100 * l.maxDc.toNat < 2 ^ 32 ∧
      (l.currentPercent = 100 ∨ 2047 ≤ l.maxDc.toNat ∧ l.maxDc.toNat ≤ 2067))

/-- The whole step. A call that divides by zero does not return; the state is left as it was. -/
def step (s : Leds) (op : LedOp) : Leds :=
  match op with
  | construct memory =>
    ⟨true, s.objects ++ [Led.construct s.initialized memory]⟩
  | fadeToDc i _ _ _ _ => { s with objects := s.objects.modify i fun l => (op.call l).getD l }
  | fadeToEnd i _ _ _ => { s with objects := s.objects.modify i fun l => (op.call l).getD l }

end LedOp

/-- The call leaves its object with the percentage of the target and of the duty last set. -/
def CallRight (s : Leds) (op : LedOp) : Prop :=
  ∀ (i : Nat) (l : Led), op.index = some i → s.objects[i]? = some l → FadedTo op.target (op.call l)

/-- The object that is called has a value in `m_max_dc` that fits the call. -/
def CallFits (s : Leds) (op : LedOp) : Prop :=
  ∀ (i : Nat) (l : Led), op.index = some i → s.objects[i]? = some l → op.Fits l

/-- All objects are tracked, and the first one has its maximum. -/
structure LedsTracked (s : Leds) : Prop where
  tracked : ∀ (i : Nat) (l : Led), s.objects[i]? = some l → Tracked l
  first : ∀ l : Led, s.objects[0]? = some l → l.maxDc = 2047
  fresh : s.initialized = false ↔ s.objects = []

/-- No LED was made in the beginning. -/
theorem LedsTracked.init : LedsTracked .init :=
  ⟨fun i l h => absurd h (by simp [Leds.init]), fun l h => absurd h (by simp [Leds.init]),
    ⟨fun _ => rfl, fun _ => rfl⟩⟩

/-- A call fades to the right brightness exactly if the bounds fit. -/
theorem call_right_iff {l : Led} (hl : Tracked l) {op : LedOp} {i : Nat} (hop : op.index = some i) :
    FadedTo op.target (op.call l) ↔ op.Fits l := by
  cases op with
  | construct memory => exact nomatch hop
  | fadeToDc j target fits block fadeT => exact fadeToDc_right_iff block fadeT hl target fits
  | fadeToEnd j on block fadeT => exact fadeToEnd_right_iff block fadeT hl on

/-- So does every call of the history. -/
theorem LedsTracked.callRight_iff {s : Leds} (h : LedsTracked s) (op : LedOp) :
    CallRight s op ↔ CallFits s op := by
  apply forall₂_congr
  intro i l
  exact forall₂_congr fun hop hl => call_right_iff (h.tracked i l hl) hop

/-- Fading leaves the maximum, -/
theorem maxDc_fadeToDc {l l' : Led} {target : UInt32} {block : Bool} {fadeT : UInt16}
    (h : l.fadeToDc target block fadeT = some l') : l'.maxDc = l.maxDc := by
  unfold Led.fadeToDc at h
  split at h
  · exact nomatch h
  · dsimp only at h
    split at h <;> cases h <;> rfl

/-- and so do all calls. -/
theorem maxDc_call {l l' : Led} {op : LedOp} (h : op.call l = some l') : l'.maxDc = l.maxDc := by
  cases op with
  | construct memory => cases h; rfl
  | fadeToDc i target fits block fadeT => exact maxDc_fadeToDc h
  | fadeToEnd i on block fadeT =>
    unfold LedOp.call Led.fadeToEnd at h
    dsimp only at h
    split at h <;> exact maxDc_fadeToDc h

/-- A call changes the object that it is made on. -/
theorem getElem?_step {s : Leds} {op : LedOp} {i : Nat} (hop : op.index = some i) (j : Nat) :
    (op.step s).objects[j]? = (s.objects[j]?).map fun l =>
      if i = j then (op.call l).getD l else l := by
  cases op with
  | construct memory => exact nomatch hop
  | fadeToDc k target fits block fadeT =>
    cases hop
    simp only [LedOp.step, List.getElem?_modify]
    cases s.objects[j]? with
    | none => rfl
    | some l => rfl
  | fadeToEnd k on block fadeT =>
    cases hop
    simp only [LedOp.step, List.getElem?_modify]
    cases s.objects[j]? with
    | none => rfl
    | some l => rfl

/-- A call does not initialise the timer again. -/
theorem initialized_step {s : Leds} {op : LedOp} {i : Nat} (hop : op.index = some i) :
    (op.step s).initialized = s.initialized := by
  cases op with
  | construct memory => exact nomatch hop
  | fadeToDc k target fits block fadeT => rfl
  | fadeToEnd k on block fadeT => rfl

/-- A call makes no LED. -/
theorem length_step {s : Leds} {op : LedOp} {i : Nat} (hop : op.index = some i) :
    (op.step s).objects.length = s.objects.length := by
  cases op with
  | construct memory => exact nomatch hop
  | fadeToDc k target fits block fadeT => exact List.length_modify _ _ _
  | fadeToEnd k on block fadeT => exact List.length_modify _ _ _

/-- A new LED takes its maximum from the memory it is made in, unless it is the first. -/
theorem LedsTracked.construct {s : Leds} (h : LedsTracked s) (memory : UInt32) :
    LedsTracked ((LedOp.construct memory).step s) where
  tracked i l hl := by
    simp only [LedOp.step] at hl
    -- one of the old LEDs, or the new one
    by_cases hi : i < s.objects.length
    · rw [List.getElem?_append_left hi] at hl
      exact h.tracked i l hl
    · rw [List.getElem?_append_right (by omega)] at hl
      have hmem : l ∈ [Led.construct s.initialized memory] := List.mem_of_getElem? hl
      rw [List.mem_singleton.mp hmem]
      show (0 : UInt32).toNat = 100 * 0 / ledMax
      rfl
  first l hl := by
    simp only [LedOp.step] at hl
    by_cases hnone : s.objects = []
    · have hfresh := h.fresh.mpr hnone
      rw [hnone, hfresh] at hl
      cases hl
      rfl
    · rw [List.getElem?_append_left (List.length_pos_iff.mpr hnone)] at hl
      exact h.first l hl
  fresh := by simp [LedOp.step]

/-- A call that fits keeps its object tracked. -/
theorem LedsTracked.step {s : Leds} (h : LedsTracked s) (op : LedOp) (hfits : CallFits s op) :
    LedsTracked (op.step s) := by
  cases hop : op.index with
  | none =>
    cases op with
    | construct memory => exact h.construct memory
    | fadeToDc k target fits block fadeT => exact nomatch hop
    | fadeToEnd k on block fadeT => exact nomatch hop
  | some i =>
    refine ⟨fun j l' hl' => ?_, fun l' hl' => ?_, ?_⟩
    · rw [getElem?_step hop] at hl'
      obtain ⟨l, hl, rfl⟩ := Option.map_eq_some_iff.mp hl'
      split
      · rename_i heq
        subst heq
        -- the LED that is called fades, the others stay
        obtain ⟨l', hcall, -, htracked⟩ := (call_right_iff (h.tracked i l hl) hop).mpr
          (hfits i l hop hl)
        rwa [hcall]
      · exact h.tracked j l hl
    · rw [getElem?_step hop] at hl'
      obtain ⟨l, hl, rfl⟩ := Option.map_eq_some_iff.mp hl'
      have hmax := h.first l hl
      split
      · cases hcall : op.call l with
        | none => exact hmax
        | some l' => exact (maxDc_call hcall).trans hmax
      · exact hmax
    · rw [initialized_step hop, h.fresh, ← List.length_eq_zero_iff, ← List.length_eq_zero_iff,
        length_step hop]

/-- On the first object every call fits. -/
theorem LedsTracked.fits_first {s : Leds} (h : LedsTracked s) (op : LedOp)
    (hfirst : ∀ i, op.index = some i → i = 0) : CallFits s op := by
  intro i l hop hl
  rw [hfirst i hop] at hl
  have hmax := h.first l hl
  have hnat : l.maxDc.toNat = 2047 := congrArg UInt32.toNat hmax
  have hne : l.maxDc ≠ 0 := by
    rw [hmax]
    decide
  cases op with
  | construct memory => trivial
  | fadeToDc k target fits block fadeT => exact ⟨hne, by rw [hnat]; rfl⟩
  | fadeToEnd k on block fadeT =>
    refine ⟨hne, fun _ => ⟨?_, Or.inr ?_⟩⟩
    · omega
    · omega

/-- In a sequence of constructions and calls with targets up to 2047, every call leaves the
    percentage of its target, which is that of the duty last set, if and only if in every call the
    object's `m_max_dc` fits. For calls on the object that was constructed first it always does. -/
theorem brightness_iff (ops : List LedOp) :
    (Always LedOp.step CallRight .init ops ↔
      Always LedOp.step CallFits .init ops) ∧
    ((∀ op ∈ ops, ∀ i, op.index = some i → i = 0) →
      Always LedOp.step CallRight .init ops) := by
  have hiff : Always LedOp.step CallRight .init ops ↔
      Always LedOp.step CallFits .init ops :=
    always_congr (I := LedsTracked) (fun _ op h => h.callRight_iff op)
      (fun _ op h hfits => h.step op hfits) .init
  refine ⟨hiff, fun hfirst => hiff.mpr ?_⟩
  apply Always.mono (I := LedsTracked) (Q := fun _ op => ∀ i, op.index = some i → i = 0)
  · exact fun s op h hop => h.fits_first op hop
  · exact fun s op h hop => h.step op (h.fits_first op hop)
  · exact .init
  · exact Always.of_forall hfirst

/-- The second object was constructed in cleared memory, and divides by zero. -/
theorem not_brightness :
    ¬ Always LedOp.step CallRight .init
      [.construct 0, .construct 0, .fadeToDc 1 1000 (by decide) false 0] := by
  rintro ⟨-, -, hright, -⟩
  obtain ⟨l, hl, -⟩ := hright 1 (Led.construct true 0) rfl rfl
  exact nomatch hl

end Ivy.Spec
