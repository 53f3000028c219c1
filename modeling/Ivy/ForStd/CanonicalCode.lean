import Mathlib.Algebra.Group.Nat.Defs
import Mathlib.Data.List.Basic

/-!
# Canonical prefix codes

A canonical code is given by the symbols of each length, the shortest first. The code words of one
length are consecutive numbers, and a length begins with the number behind the last code word of
the length before it, with one more bit. In the space of all windows of `W` bits each code word
takes up the windows that begin with it: an interval, and the intervals lie one behind the other.

The rest is about tables for looking up the code word that a window begins with: tables that are
filled code word by code word, and tables in two levels, where the long code words have to begin
with ones.
-/

namespace Ivy.Canonical

variable {α β γ : Type}

/-- The `len` bits of `code` stand for `sym`. -/
structure Codeword (α : Type) where
  len : Nat
  code : Nat
  sym : α
  deriving DecidableEq, Repr

/-- A window of `W` bits begins with the code word. -/
def Codeword.Begins (W : Nat) (c : Codeword α) (w : Nat) : Prop := w / 2 ^ (W - c.len) = c.code

instance (W : Nat) (c : Codeword α) (w : Nat) : Decidable (c.Begins W w) :=
  inferInstanceAs (Decidable (_ = _))

/-- The windows of `c` lie before those of `d`. -/
def Codeword.Before (W : Nat) (c d : Codeword α) : Prop :=
  (c.code + 1) * 2 ^ (W - c.len) ≤ d.code * 2 ^ (W - d.len)

/-- Consecutive code words of `n` bits, from `cc` on. -/
def consecutive (n cc : Nat) : List α → List (Codeword α)
  | [] => []
  | a :: as => ⟨n, cc, a⟩ :: consecutive n (cc + 1) as

/-- The code words for the symbols of length `n`, `n + 1` and so on, from `cc` on. -/
def codewords (n cc : Nat) : List (List α) → List (Codeword α)
  | [] => []
  | g :: gs => consecutive n cc g ++ codewords (n + 1) (2 * (cc + g.length)) gs

/-- How many windows of `W` bits the code words take up. -/
def windows (W n : Nat) : List (List α) → Nat
  | [] => 0
  | g :: gs => g.length * 2 ^ (W - n) + windows W (n + 1) gs

/-! ## The intervals of the code words -/

/-- The windows that begin with a code word are a range. -/
theorem Codeword.begins_iff {W : Nat} {c : Codeword α} {w : Nat} :
    c.Begins W w ↔
      c.code * 2 ^ (W - c.len) ≤ w ∧ w < (c.code + 1) * 2 ^ (W - c.len) := by
  rw [Begins, Nat.div_eq_iff (Nat.two_pow_pos _)]
  have hstep : (c.code + 1) * 2 ^ (W - c.len) = c.code * 2 ^ (W - c.len) + 2 ^ (W - c.len) :=
    Nat.succ_mul _ _
  have hpos := Nat.two_pow_pos (W - c.len)
  omega

/-- Consecutive codes of one length. -/
theorem mem_consecutive {n cc : Nat} {g : List α} {c : Codeword α} (h : c ∈ consecutive n cc g) :
    c.len = n ∧ cc ≤ c.code ∧ c.code < cc + g.length ∧ c.sym ∈ g := by
  induction g generalizing cc with
  | nil => simp [consecutive] at h
  | cons a as ih =>
    rw [consecutive, List.mem_cons] at h
    rcases h with rfl | h
    · simp
    · obtain ⟨hlen, hge, hlt, hsym⟩ := ih h
      refine ⟨hlen, by omega, ?_, List.mem_cons_of_mem a hsym⟩
      rw [List.length_cons]
      omega

/-- One more bit doubles the number of a code word and halves the windows behind it. -/
theorem double_mul_two_pow {W n : Nat} (cc : Nat) (hn : n + 1 ≤ W) :
    2 * cc * 2 ^ (W - (n + 1)) = cc * 2 ^ (W - n) := by
  rw [show W - n = W - (n + 1) + 1 by omega, Nat.pow_succ, Nat.mul_comm 2 cc, Nat.mul_assoc,
    Nat.mul_comm 2]

/-- Each code word lies within the windows that its code takes up. -/
theorem codewords_bounds {W n cc : Nat} {gs : List (List α)} {c : Codeword α}
    (hW : n + gs.length ≤ W + 1) (h : c ∈ codewords n cc gs) :
    (n ≤ c.len ∧ c.len ≤ W) ∧ cc * 2 ^ (W - n) ≤ c.code * 2 ^ (W - c.len) ∧
      (c.code + 1) * 2 ^ (W - c.len) ≤ cc * 2 ^ (W - n) + windows W n gs := by
  induction gs generalizing n cc with
  | nil => simp [codewords] at h
  | cons g gs ih =>
    rw [List.length_cons] at hW
    rw [codewords, List.mem_append] at h
    rw [windows]
    rcases h with h | h
    · -- a code word of the first length
      obtain ⟨rfl, hge, hlt, -⟩ := mem_consecutive h
      have hlow := Nat.mul_le_mul_right (2 ^ (W - c.len)) hge
      have hhigh : (c.code + 1) * 2 ^ (W - c.len) ≤ (cc + g.length) * 2 ^ (W - c.len) :=
        Nat.mul_le_mul_right _ hlt
      rw [Nat.add_mul cc g.length] at hhigh
      omega
    · -- a longer one: the interval of the longer ones begins behind the first length
      have hmore : gs ≠ [] := by
        rintro rfl
        simp [codewords] at h
      have hpos := List.length_pos_iff.mpr hmore
      obtain ⟨hlen, hlow, hhigh⟩ := ih (by omega) h
      rw [double_mul_two_pow _ (by omega), Nat.add_mul cc g.length] at hlow hhigh
      omega

/-- The codes of all lengths are in ascending order. -/
theorem codewords_pairwise {W n : Nat} (cc : Nat) {gs : List (List α)}
    (hW : n + gs.length ≤ W + 1) :
    (codewords n cc gs).Pairwise (Codeword.Before W) := by
  induction gs generalizing n cc with
  | nil => exact List.Pairwise.nil
  | cons g gs ih =>
    rw [List.length_cons] at hW
    refine List.pairwise_append.mpr ⟨?_, ih _ (by omega), ?_⟩
    · -- within one length the numbers grow
      clear ih hW
      induction g generalizing cc with
      | nil => exact List.Pairwise.nil
      | cons a as ih =>
        refine List.Pairwise.cons (fun d hd => ?_) (ih _)
        obtain ⟨hlen, hge, -⟩ := mem_consecutive hd
        rw [Codeword.Before, hlen]
        exact Nat.mul_le_mul_right _ hge
    · -- and a longer code word lies behind all of them
      intro c hc d hd
      have hmore : gs ≠ [] := by
        rintro rfl
        simp [codewords] at hd
      have hpos := List.length_pos_iff.mpr hmore
      obtain ⟨rfl, -, hlt, -⟩ := mem_consecutive hc
      obtain ⟨-, hlow, -⟩ := codewords_bounds (W := W) (by omega) hd
      rw [double_mul_two_pow _ (by omega)] at hlow
      exact Nat.le_trans (Nat.mul_le_mul_right _ hlt) hlow

/-- The order of the windows is the same for windows of fewer bits. -/
theorem Codeword.Before.narrow {W W' : Nat} {c d : Codeword α} (h : c.Before W d) (hW : W' ≤ W)
    (hc : c.len ≤ W') (hd : d.len ≤ W') : c.Before W' d := by
  have hpow : ∀ n ≤ W', 2 ^ (W - n) = 2 ^ (W' - n) * 2 ^ (W - W') := by
    intro n hn
    rw [← Nat.pow_add]
    congr 1
    omega
  unfold Codeword.Before at h ⊢
  rw [hpow _ hc, hpow _ hd, ← Nat.mul_assoc, ← Nat.mul_assoc] at h
  exact Nat.le_of_mul_le_mul_right h (Nat.two_pow_pos _)

/-- No window begins with two of the codes. -/
theorem Codeword.Before.not_begins {W w : Nat} {c d : Codeword α} (h : c.Before W d)
    (hc : c.Begins W w) : ¬ d.Begins W w := by
  intro hd
  rw [Codeword.begins_iff] at hc hd
  unfold Codeword.Before at h
  omega

/-- The bits behind a code word do not matter. -/
theorem Codeword.Begins.extend {W W' w : Nat} {c : Codeword α} (h : c.Begins W' w) (hW : W' ≤ W)
    (hc : c.len ≤ W') : c.Begins W (w * 2 ^ (W - W')) := by
  rw [Begins, show W - c.len = W - W' + (W' - c.len) by omega, Nat.pow_add,
    ← Nat.div_div_eq_div_mul, Nat.mul_div_cancel _ (Nat.two_pow_pos _)]
  exact h

/-- A window begins with at most one code word. -/
theorem eq_of_begins {W n cc w : Nat} {gs : List (List α)} (hW : n + gs.length ≤ W + 1)
    {c d : Codeword α} (hc : c ∈ codewords n cc gs) (hd : d ∈ codewords n cc gs)
    (hcw : c.Begins W w) (hdw : d.Begins W w) : c = d := by
  have hpair := List.pairwise_iff_getElem.mp (codewords_pairwise cc hW)
  obtain ⟨i, hi, rfl⟩ := List.getElem_of_mem hc
  obtain ⟨j, hj, rfl⟩ := List.getElem_of_mem hd
  rcases Nat.lt_trichotomy i j with hij | rfl | hij
  · exact absurd hdw ((hpair i j hi hj hij).not_begins hcw)
  · rfl
  · exact absurd hcw ((hpair j i hj hi hij).not_begins hdw)

/-! ## Tables -/

/-- Enter one item after the other, up to the first one that cannot be entered. -/
def enterAll (enter : γ → (Nat → β) → Option (Nat → β)) :
    List γ → (Nat → β) → (Nat → β) × Bool
  | [], m => (m, true)
  | c :: cs, m =>
    match enter c m with
    | some m' => enterAll enter cs m'
    | none => (m, false)

section

variable {enter : γ → (Nat → β) → Option (Nat → β)} {items : List γ} {m : Nat → β}

/-- The second items are entered if the first ones were. -/
theorem enterAll_append (items₁ items₂ : List γ) :
    enterAll enter (items₁ ++ items₂) m =
      if (enterAll enter items₁ m).2 then enterAll enter items₂ (enterAll enter items₁ m).1
      else enterAll enter items₁ m := by
  induction items₁ generalizing m with
  | nil => rfl
  | cons c cs ih =>
    rw [List.cons_append, enterAll, enterAll]
    cases enter c m with
    | some m' => exact ih
    | none => rfl

/-- Entering items that are made of others. -/
theorem enterAll_map {δ : Type} (f : δ → γ) (l : List δ) :
    enterAll enter (l.map f) m = enterAll (fun x => enter (f x)) l m := by
  induction l generalizing m with
  | nil => rfl
  | cons x l ih =>
    rw [List.map_cons, enterAll, enterAll]
    cases enter (f x) m with
    | some m' => exact ih
    | none => rfl

/-- Whether an item can be entered may depend on the item only. -/
theorem enterAll_ok_iff {ok : γ → Prop} (hok : ∀ c m, (enter c m).isSome ↔ ok c) :
    (enterAll enter items m).2 = true ↔ ∀ c ∈ items, ok c := by
  induction items generalizing m with
  | nil => simp [enterAll]
  | cons c cs ih =>
    -- whether an item can be entered does not depend on the table
    have hc := hok c m
    rw [List.forall_mem_cons, enterAll]
    cases h : enter c m with
    | some m' =>
      rw [h] at hc
      simp only [ih, hc.mp rfl, true_and]
    | none =>
      rw [h] at hc
      simp only [Option.isSome_none, Bool.false_eq_true, false_iff] at hc
      simp [hc]

variable {cells : γ → Nat → Option β}
  (henter : ∀ c m m', enter c m = some m' → ∀ a, m' a = (cells c a).getD (m a))

include henter

/-- A cell that no item is entered into keeps its value. -/
theorem enterAll_frame {a : Nat} (h : ∀ c ∈ items, cells c a = none) :
    (enterAll enter items m).1 a = m a := by
  induction items generalizing m with
  | nil => rfl
  | cons c cs ih =>
    rw [List.forall_mem_cons] at h
    rw [enterAll]
    cases hc : enter c m with
    | some m' =>
      simp only [ih h.2, henter c m m' hc a, h.1, Option.getD_none]
    | none => rfl

/-- A cell holds what the one item that is entered there puts into it. -/
theorem enterAll_entered {c : γ} {a : Nat} {v : β}
    (hdisj : items.Pairwise fun c d => ∀ a, cells c a ≠ none → cells d a = none)
    (hok : (enterAll enter items m).2 = true) (hc : c ∈ items) (ha : cells c a = some v) :
    (enterAll enter items m).1 a = v := by
  induction items generalizing m with
  | nil => simp at hc
  | cons d ds ih =>
    rw [List.pairwise_cons] at hdisj
    rw [enterAll] at hok ⊢
    cases hd : enter d m with
    | none => simp [hd] at hok
    | some m' =>
      simp only [hd] at hok ⊢
      rcases List.mem_cons.mp hc with rfl | hmem
      · -- entered now, and kept by the items behind it
        rw [enterAll_frame henter fun e he => hdisj.1 e he a (by simp [ha]),
          henter c m m' hd a, ha, Option.getD_some]
      · exact ih hdisj.2 hok hmem

end

/-! ## Tables in two levels -/

/-- Windows of `W` bits. Code words of at most `S` bits are looked up by the first `S` bits of the
    window; longer ones begin with `T` ones, and are looked up by the bits behind these. -/
structure TwoLevel where
  W : Nat
  S : Nat
  T : Nat
  T_le : T ≤ S
  S_le : S + T ≤ W

namespace TwoLevel

variable (t : TwoLevel)

/-- The size of the table of the long code words, which is also where it begins. -/
def long : Nat := 2 ^ (t.W - t.T)

/-- The first window that begins with ones. -/
def ones : Nat := (2 ^ t.T - 1) * t.long

/-- Where a window is looked up. -/
def index (w : Nat) : Nat := if t.ones ≤ w then t.long + w % t.long else w / 2 ^ (t.W - t.S)

/-- The entries of a code word: the first one, and `2 ^ k` of them. -/
def slot (c : Codeword α) : Option (Nat × Nat) :=
  if t.T ≤ c.len ∧ c.code / 2 ^ (c.len - t.T) = 2 ^ t.T - 1 then
    some (t.long + c.code * 2 ^ (t.W - c.len) % t.long, t.W - c.len)
  else if c.len ≤ t.S then some (c.code * 2 ^ (t.S - c.len), t.S - c.len)
  else none

/-- A code word that has a length of the table and is not all ones. -/
structure Fits (c : Codeword α) : Prop where
  len_le : c.len ≤ t.W
  code_lt : c.code + 1 < 2 ^ c.len

variable {t} {c d : Codeword α} {w a o k : Nat}

/-- The second level is not empty. -/
theorem long_pos (t : TwoLevel) : 0 < t.long := Nat.two_pow_pos _

/-- The second level is for the windows behind the ones. -/
theorem ones_add_long : t.ones + t.long = 2 ^ t.W := by
  have hone := Nat.two_pow_pos t.T
  have hT := t.T_le
  have hS := t.S_le
  rw [ones, long, ← Nat.succ_mul, Nat.succ_eq_add_one, Nat.sub_add_cancel hone, ← Nat.pow_add]
  congr 1
  omega

/-- The windows of a long code word begin with ones, and there are as many as entries. -/
theorem slot_long (hc : t.Fits c)
    (h : t.T ≤ c.len ∧ c.code / 2 ^ (c.len - t.T) = 2 ^ t.T - 1) :
    t.ones ≤ c.code * 2 ^ (t.W - c.len) ∧
      (c.code + 1) * 2 ^ (t.W - c.len) ≤ t.ones + t.long ∧
      t.slot c = some (t.long + (c.code * 2 ^ (t.W - c.len) - t.ones), t.W - c.len) := by
  have hpow : t.long = 2 ^ (c.len - t.T) * 2 ^ (t.W - c.len) := by
    have hlen := hc.len_le
    rw [long, ← Nat.pow_add]
    congr 1
    omega
  have hones : t.ones ≤ c.code * 2 ^ (t.W - c.len) := by
    rw [ones, hpow, ← Nat.mul_assoc, ← h.2]
    exact Nat.mul_le_mul_right _ (Nat.div_mul_le_self _ _)
  have hend : (c.code + 1) * 2 ^ (t.W - c.len) ≤ t.ones + t.long := by
    rw [ones_add_long, show 2 ^ t.W = 2 ^ c.len * 2 ^ (t.W - c.len) by
      rw [← Nat.pow_add, Nat.add_sub_cancel' hc.len_le]]
    exact Nat.mul_le_mul_right _ (Nat.le_of_lt hc.code_lt)
  refine ⟨hones, hend, ?_⟩
  -- the remainder of the division by the size of the table is what lies behind the ones
  have hrest : c.code * 2 ^ (t.W - c.len) % t.long = c.code * 2 ^ (t.W - c.len) - t.ones := by
    have hpos := Nat.two_pow_pos (t.W - c.len)
    rw [Nat.succ_mul] at hend
    conv => lhs; rw [← Nat.sub_add_cancel hones]
    rw [ones, Nat.add_mul_mod_self_right, ← ones, Nat.mod_eq_of_lt (by omega)]
  rw [slot, if_pos h, hrest]

/-- The entries of a short code word. -/
theorem slot_short (h : ¬ (t.T ≤ c.len ∧ c.code / 2 ^ (c.len - t.T) = 2 ^ t.T - 1))
    (hslot : t.slot c = some (o, k)) :
    c.len ≤ t.S ∧ o = c.code * 2 ^ (t.S - c.len) ∧ k = t.S - c.len ∧
      2 ^ (t.W - c.len) = 2 ^ (t.S - c.len) * 2 ^ (t.W - t.S) := by
  rw [slot, if_neg h] at hslot
  split at hslot
  · have hS := t.S_le
    rw [Option.some.injEq, Prod.mk.injEq] at hslot
    refine ⟨by assumption, hslot.1.symm, hslot.2.symm, ?_⟩
    rw [← Nat.pow_add]
    congr 1
    omega
  · cases hslot

/-- The windows of a short code word do not begin with ones. -/
theorem short_le_ones (hc : t.Fits c)
    (h : ¬ (t.T ≤ c.len ∧ c.code / 2 ^ (c.len - t.T) = 2 ^ t.T - 1)) :
    (c.code + 1) * 2 ^ (t.W - c.len) ≤ t.ones := by
  by_cases hlen : t.T ≤ c.len
  · have hsplit : 2 ^ c.len = 2 ^ t.T * 2 ^ (c.len - t.T) := by
      rw [← Nat.pow_add, Nat.add_sub_cancel' hlen]
    have hlt : c.code / 2 ^ (c.len - t.T) < 2 ^ t.T := by
      have hcode := hc.code_lt
      rw [Nat.div_lt_iff_lt_mul (Nat.two_pow_pos _), ← hsplit]
      omega
    have hne : c.code / 2 ^ (c.len - t.T) ≠ 2 ^ t.T - 1 := fun heq => h ⟨hlen, heq⟩
    -- the first bits are not all ones, so that the code ends in front of them
    have hle : c.code + 1 ≤ (2 ^ t.T - 1) * 2 ^ (c.len - t.T) := by
      apply (Nat.div_lt_iff_lt_mul (Nat.two_pow_pos _)).mp
      omega
    rw [ones, long, show t.W - t.T = c.len - t.T + (t.W - c.len) by
      have := hc.len_le
      omega, Nat.pow_add, ← Nat.mul_assoc]
    exact Nat.mul_le_mul_right _ hle
  · -- fewer bits than ones: the code word would have to be all ones
    have hlong : t.long ≤ 2 ^ (t.W - c.len) := Nat.pow_le_pow_right (by decide) (by omega)
    have hall : 2 ^ c.len * 2 ^ (t.W - c.len) = t.ones + t.long := by
      rw [ones_add_long, ← Nat.pow_add, Nat.add_sub_cancel' hc.len_le]
    have hle : (c.code + 1 + 1) * 2 ^ (t.W - c.len) ≤ t.ones + t.long := by
      rw [← hall]
      exact Nat.mul_le_mul_right _ hc.code_lt
    rw [Nat.succ_mul] at hle
    omega

/-- The entries of the short code words lie below those of the long ones. -/
theorem two_pow_S_le_long (t : TwoLevel) : 2 ^ t.S ≤ t.long := by
  have hS := t.S_le
  exact Nat.pow_le_pow_right (by decide) (by omega)

/-- The first level holds its indices. -/
theorem short_index_lt (hw : w < 2 ^ t.W) : w / 2 ^ (t.W - t.S) < 2 ^ t.S := by
  have hS := t.S_le
  rwa [Nat.div_lt_iff_lt_mul (Nat.two_pow_pos _), ← Nat.pow_add, Nat.add_sub_cancel' (by omega)]

/-- Behind the ones the remainder counts on. -/
theorem mod_long_of_ones_le (hw : w < 2 ^ t.W) (h : t.ones ≤ w) : w % t.long = w - t.ones := by
  rw [← ones_add_long] at hw
  conv => lhs; rw [← Nat.sub_add_cancel h]
  rw [ones, Nat.add_mul_mod_self_right, ← ones, Nat.mod_eq_of_lt (by omega)]

/-- A window is looked up among the entries of a code word exactly when it begins with it. -/
theorem index_mem_slot_iff (hc : t.Fits c) (hw : w < 2 ^ t.W) (hslot : t.slot c = some (o, k)) :
    (o ≤ t.index w ∧ t.index w < o + 2 ^ k) ↔ c.Begins t.W w := by
  have hlong := t.two_pow_S_le_long
  rw [Codeword.begins_iff]
  by_cases h : t.T ≤ c.len ∧ c.code / 2 ^ (c.len - t.T) = 2 ^ t.T - 1
  · obtain ⟨hones, -, heq⟩ := slot_long hc h
    obtain ⟨rfl, rfl⟩ := Prod.mk.inj (Option.some.inj (heq.symm.trans hslot))
    rw [Nat.succ_mul, index]
    split
    · rw [mod_long_of_ones_le hw (by assumption)]
      omega
    · have hindex := short_index_lt hw
      omega
  · have hones := short_le_ones hc h
    obtain ⟨hlen, rfl, rfl, hpow⟩ := slot_short h hslot
    rw [← Nat.succ_mul, Nat.succ_eq_add_one, index]
    split
    · -- the window begins with ones, the code word does not
      have hend : (c.code + 1) * 2 ^ (t.S - c.len) ≤ 2 ^ t.S := by
        rw [show 2 ^ t.S = 2 ^ c.len * 2 ^ (t.S - c.len) by
          rw [← Nat.pow_add, Nat.add_sub_cancel' hlen]]
        exact Nat.mul_le_mul_right _ (Nat.le_of_lt hc.code_lt)
      omega
    · rw [Nat.le_div_iff_mul_le (Nat.two_pow_pos _), Nat.div_lt_iff_lt_mul (Nat.two_pow_pos _),
        Nat.mul_assoc, Nat.mul_assoc, ← hpow]

/-- Each entry of a code word is the entry of some window. -/
theorem exists_index (hc : t.Fits c) (hslot : t.slot c = some (o, k)) (ha : o ≤ a)
    (ha' : a < o + 2 ^ k) : ∃ w < 2 ^ t.W, t.index w = a := by
  -- a code of the second level, or of the first
  by_cases h : t.T ≤ c.len ∧ c.code / 2 ^ (c.len - t.T) = 2 ^ t.T - 1
  · obtain ⟨hones, hend, heq⟩ := slot_long hc h
    obtain ⟨rfl, rfl⟩ := Prod.mk.inj (Option.some.inj (heq.symm.trans hslot))
    rw [Nat.succ_mul] at hend
    have hw : t.ones + (a - t.long) < 2 ^ t.W := by
      rw [← ones_add_long]
      omega
    refine ⟨t.ones + (a - t.long), hw, ?_⟩
    rw [index, if_pos (by omega), mod_long_of_ones_le hw (by omega)]
    omega
  · have hones := short_le_ones hc h
    obtain ⟨hlen, rfl, rfl, hpow⟩ := slot_short h hslot
    rw [← Nat.succ_mul, Nat.succ_eq_add_one] at ha'
    have hlt : a * 2 ^ (t.W - t.S) < t.ones := by
      apply Nat.lt_of_lt_of_le _ hones
      rw [hpow, ← Nat.mul_assoc]
      exact Nat.mul_lt_mul_of_pos_right ha' (Nat.two_pow_pos _)
    refine ⟨a * 2 ^ (t.W - t.S), ?_, ?_⟩
    · rw [← ones_add_long]
      omega
    · rw [index, if_neg (by omega), Nat.mul_div_cancel _ (Nat.two_pow_pos _)]

/-- Code words one before the other have no entry in common. -/
theorem slot_disjoint {o' k' : Nat} (hc : t.Fits c) (hd : t.Fits d) (hbefore : c.Before t.W d)
    (hslot : t.slot c = some (o, k)) (hslot' : t.slot d = some (o', k')) (ha : o ≤ a)
    (ha' : a < o + 2 ^ k) : ¬ (o' ≤ a ∧ a < o' + 2 ^ k') := by
  intro hin
  obtain ⟨w, hw, rfl⟩ := exists_index hc hslot ha ha'
  exact hbefore.not_begins ((index_mem_slot_iff hc hw hslot).mp ⟨ha, ha'⟩)
    ((index_mem_slot_iff hd hw hslot').mp hin)

/-- All lookups go to the two tables. -/
theorem index_lt (hw : w < 2 ^ t.W) : t.index w < 2 * t.long := by
  have hlong := t.two_pow_S_le_long
  rw [index]
  split
  · have hmod := Nat.mod_lt w t.long_pos
    omega
  · have hlt := short_index_lt hw
    omega

/-- Both levels together hold all slots. -/
theorem slot_le (hc : t.Fits c) (hslot : t.slot c = some (o, k)) : o + 2 ^ k ≤ 2 * t.long := by
  have hpos := Nat.two_pow_pos k
  obtain ⟨w, hw, hindex⟩ := exists_index (a := o + 2 ^ k - 1) hc hslot (by omega) (by omega)
  have hlt := index_lt hw
  omega

/-- Which code words can be entered. -/
theorem slot_isSome_iff :
    (t.slot c).isSome ↔
      c.len ≤ t.S ∨ t.T ≤ c.len ∧ c.code / 2 ^ (c.len - t.T) = 2 ^ t.T - 1 := by
  rw [slot]
  split
  · simp [*]
  · split <;> simp [*]

end TwoLevel

end Ivy.Canonical
