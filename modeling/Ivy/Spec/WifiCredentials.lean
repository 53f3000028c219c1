import Ivy.Native.WifiConfig

/-!
# Credentials in the Wi-Fi configuration

The copies into the record are as long as their source says, not as long as their field. The two
fields lie side by side, so that what is too much of the ssid becomes part of the password, and what
is more than the record has room for goes behind it. The password of an access point is not copied
at all if its length is out of range, but its mode is still set.

## Key results

- `Overlay.password_iff`: when the password field holds the password, for both records
- `wifi_credentials_iff`: when each record is as it should be
-/

namespace Ivy.Spec

open Ivy.Native Ivy.CString

/-- The two fields hold at most the first bytes of the ssid and of the password. -/
def FieldsRight (m : Nat → UInt8) (ssid passwd : List UInt8) : Prop :=
  Mem.load m ssidOffset ssidSize = field ssidSize ssid ∧
    Mem.load m passwordOffset passwordSize = field passwordSize passwd

/-- A protected mode comes with a password. -/
def AuthRight (m : Nat → UInt8) (authmode : Nat) : Prop :=
  Mem.load m authmode 4 ≠ enumBytes WifiAuth.open.toUInt8 → m passwordOffset ≠ 0

/-- Each copy is at most as long as its field. -/
def CopiesInside (copies : List StrncpyCall) : Prop :=
  ∀ c ∈ copies, c.n ≤ if c.dst = ssidOffset then ssidSize else passwordSize

/-- The copies stay inside their fields, and there is a record, with the right fields and mode. -/
def RecordRight (copies : List StrncpyCall) (record : Option (Nat → UInt8))
    (ssid passwd : List UInt8) (authmode : Nat) : Prop :=
  CopiesInside copies ∧
    ∃ m, record = some m ∧ FieldsRight m ssid passwd ∧ AuthRight m authmode

/-! ## Two copies side by side -/

/-- The fields after the ssid was copied, and then `q` bytes of the password. -/
def Overlay (m : Nat → UInt8) (ssid passwd : List UInt8) (q : Nat) : Prop :=
  ∀ j < passwordOffset + passwordSize,
    m j = if passwordOffset ≤ j ∧ j < passwordOffset + q then padded passwd (j - passwordOffset)
      else padded ssid j

section

variable {m : Nat → UInt8}

/-- The record is cleared before anything is copied. -/
theorem clearConfig_apply (stack : Nat → UInt8) {j : Nat} (hj : j < wifiConfigSize) :
    clearConfig stack j = 0 := by
  have hcell := Mem.store_of_getElem? stack (o := 0) (i := j)
    (List.getElem?_replicate_of_lt (a := (0 : UInt8)) hj)
  rwa [Nat.zero_add] at hcell

/-- A copy that ends inside the record is a `strncpy`. -/
theorem run_inside {c : StrncpyCall} (h : c.dst + c.n ≤ wifiConfigSize) :
    StrncpyCall.run m c = some (strncpy m c.dst c.src c.n) :=
  if_pos h

/-- A copy that does not leaves no record, whatever is copied after it. -/
theorem run_outside {c : StrncpyCall} (h : wifiConfigSize < c.dst + c.n)
    (copies : List StrncpyCall) : (c :: copies).foldlM StrncpyCall.run m = none := by
  rw [List.foldlM_cons, StrncpyCall.run, if_neg (Nat.not_le_of_lt h)]
  rfl

/-- In cleared memory a copy of the ssid leaves its text, and zeros behind it. -/
theorem overlay_ssid (hm : ∀ j < passwordOffset + passwordSize, m j = 0) (src : List UInt8)
    (n : Nat) (passwd : List UInt8) :
    Overlay (strncpy m ssidOffset src n) (cells (src.take n)) passwd 0 := by
  intro j hj
  have hlen : (cells (src.take n)).length ≤ n :=
    (length_cells_le _).trans (List.length_take_le _ _)
  rw [if_neg (by omega), strncpy_apply]
  split
  · rfl
  · -- behind the copy: the field was cleared, and the text has ended
    rename_i hout
    rw [hm j hj, padded_of_le]
    simp only [ssidOffset] at hout
    omega

/-- The password is copied over what the ssid has left in its field. -/
theorem Overlay.password {ssid : List UInt8} {passwd : List UInt8}
    (h : Overlay m ssid passwd 0) (src : List UInt8) (q : Nat) :
    Overlay (strncpy m passwordOffset src q) ssid (cells (src.take q)) q := by
  intro j hj
  rw [strncpy_apply]
  split
  · rfl
  · rw [h j hj, if_neg (by omega)]

/-- What is written behind the fields leaves them alone. -/
theorem Overlay.store {ssid passwd : List UInt8} {q : Nat} (h : Overlay m ssid passwd q) {o : Nat}
    (ho : passwordOffset + passwordSize ≤ o) (l : List UInt8) :
    Overlay (Mem.store m o l) ssid passwd q := by
  intro j hj
  rw [Mem.store_of_lt m l (by omega)]
  exact h j hj

variable {ssid passwd : List UInt8} {q : Nat}

/-- The ssid field is right whatever is copied: the password begins behind it. -/
theorem Overlay.ssid_right (h : Overlay m ssid passwd q) :
    Mem.load m ssidOffset ssidSize = field ssidSize ssid := by
  rw [load_eq_field_iff]
  intro i hi
  simp only [ssidSize] at hi
  simp only [ssidOffset, Nat.zero_add]
  rw [h i (by simp only [passwordOffset, passwordSize]; omega),
    if_neg (by simp only [passwordOffset]; omega)]

/-- Behind what was copied of the password the rest of the ssid has to be what the field should
    hold there. -/
theorem Overlay.password_iff (h : Overlay m ssid passwd q) :
    Mem.load m passwordOffset passwordSize = field passwordSize passwd ↔
      ∀ i < passwordSize, q ≤ i → padded ssid (passwordOffset + i) = padded passwd i := by
  rw [load_eq_field_iff]
  apply forall₂_congr
  intro i hi
  rw [h (passwordOffset + i) (by omega), Nat.add_sub_cancel_left]
  -- in front of `q` the password itself stands there
  by_cases hq : i < q
  · rw [if_pos (by omega)]
    exact ⟨fun _ hle => absurd hq (by omega), fun _ => rfl⟩
  · rw [if_neg (by omega)]
    exact ⟨fun heq _ => heq, fun heq => heq (by omega)⟩

/-- With an ssid that fits its field, the fields are right exactly if the password has been copied
    to its end, or up to the end of the field. -/
theorem Overlay.fieldsRight_iff (h : Overlay m ssid passwd q) (hssid : ssid.length ≤ ssidSize)
    (hpasswd : ∀ a ∈ passwd, a ≠ 0) :
    FieldsRight m ssid passwd ↔ passwd.length ≤ q ∨ passwordSize ≤ q := by
  have hcell : ∀ i, padded ssid (passwordOffset + i) = padded passwd i ↔ passwd.length ≤ i := by
    intro i
    have hend : ssid.length ≤ passwordOffset + i := Nat.le_trans hssid (Nat.le_add_right _ _)
    rw [padded_of_le hend, eq_comm, padded_eq_zero_iff hpasswd]
  rw [FieldsRight, h.password_iff]
  simp only [h.ssid_right, true_and, hcell]
  constructor
  · intro hall
    by_cases hq : passwordSize ≤ q
    · exact Or.inr hq
    · exact Or.inl (hall q (by omega) (Nat.le_refl q))
  · rintro hor i hi hqi
    omega

end

/-! ## The station -/

section

variable (stack : Nat → UInt8) (ssid passwd : CString)

/-- A copy over the length of a string takes its text. -/
theorem cells_take_strlen (s : CString) : cells (s.mem.take s.strlen) = s.text := by
  rw [show s.mem.take s.strlen = s.text from take_length_cells s.mem]
  exact cells_eq_self fun a ha => ne_zero_of_mem_text ha

/-- `passwd[0] != '\0'` -/
theorem headD_eq_zero_iff (s : CString) : s.mem.headD 0 = 0 ↔ s.text = [] := by
  unfold CString.text
  cases s.mem with
  | nil => exact ⟨fun _ => rfl, fun _ => rfl⟩
  | cons a mem =>
    by_cases ha : a = 0
    · subst ha
      simp
    · simp [cells_cons ha, ha]

/-- The copies stay inside their fields exactly if both texts fit. -/
theorem copiesInside_station :
    CopiesInside (stationCopies ssid passwd) ↔ ssid.strlen ≤ 32 ∧ passwd.strlen ≤ 64 := by
  unfold CopiesInside stationCopies
  split
  · simp [ssidOffset, ssidSize, passwordOffset, passwordSize]
  · rename_i hempty
    have hlen : passwd.strlen = 0 :=
      congrArg List.length ((headD_eq_zero_iff passwd).mp (not_not.mp hempty))
    simp [ssidOffset, ssidSize, hlen]

/-- The record of the station, for texts that end inside it. -/
theorem stationConfig_eq_some (hssid : ssidOffset + ssid.strlen ≤ wifiConfigSize)
    (hpasswd : passwordOffset + passwd.strlen ≤ wifiConfigSize) :
    ∃ m, stationConfig stack ssid passwd = some m ∧
      Overlay m ssid.text passwd.text passwd.strlen ∧
      Mem.load m staThresholdAuthmode 4 = enumBytes WifiAuth.wpa2Psk.toUInt8 := by
  -- the scan method, which is set first, lies behind both fields
  have hclear : ∀ j < passwordOffset + passwordSize,
      Mem.store (clearConfig stack) staScanMethod (enumBytes 1) j = 0 := fun j hj => by
    rw [Mem.store_of_lt _ _ (show j < staScanMethod from hj)]
    exact clearConfig_apply stack (Nat.lt_trans hj (by decide))
  have hoverlay := overlay_ssid hclear ssid.mem ssid.strlen []
  rw [cells_take_strlen] at hoverlay
  have hfirst := run_inside (m := Mem.store (clearConfig stack) staScanMethod (enumBytes 1))
    (c := ⟨ssidOffset, ssid.mem, ssid.strlen⟩) hssid
  -- the copies, with or without that of the password
  have hcopies : ∃ m, (stationCopies ssid passwd).foldlM StrncpyCall.run
      (Mem.store (clearConfig stack) staScanMethod (enumBytes 1)) = some m ∧
      Overlay m ssid.text passwd.text passwd.strlen := by
    unfold stationCopies
    rw [List.foldlM_cons, hfirst, Option.bind_eq_bind, Option.bind_some]
    split
    · have hsecond := hoverlay.password passwd.mem passwd.strlen
      rw [cells_take_strlen] at hsecond
      refine ⟨_, ?_, hsecond⟩
      rw [List.foldlM_cons, run_inside hpasswd]
      rfl
    · rename_i hempty
      have htext := (headD_eq_zero_iff passwd).mp (not_not.mp hempty)
      have hlen : passwd.strlen = 0 := congrArg List.length htext
      rw [hlen, htext]
      exact ⟨_, rfl, hoverlay⟩
  obtain ⟨m, hm, hcopied⟩ := hcopies
  -- what is set after the copies lies behind the fields as well
  refine ⟨Mem.store (Mem.store (Mem.store m staListenInterval [10, 0]) staPmfCapable [1])
    staThresholdAuthmode (enumBytes WifiAuth.wpa2Psk.toUInt8), ?_,
    ((hcopied.store (by decide) _).store (by decide) _).store (by decide) _,
    Mem.load_store_at _ staThresholdAuthmode (enumBytes WifiAuth.wpa2Psk.toUInt8)⟩
  unfold stationConfig
  simp only [hm]
  rfl

/-- An ssid that does not end inside the record leaves none. -/
theorem stationConfig_eq_none (hssid : wifiConfigSize < ssidOffset + ssid.strlen) :
    stationConfig stack ssid passwd = none := by
  unfold stationConfig stationCopies
  simp only [run_outside (c := ⟨ssidOffset, ssid.mem, ssid.strlen⟩) hssid]
  rfl

/-- The mode is always a protected one, so the password must not be empty; and with an ssid and a
    password that fit their fields that is all. -/
theorem station_right_iff :
    RecordRight (stationCopies ssid passwd) (stationConfig stack ssid passwd) ssid.text passwd.text
        staThresholdAuthmode ↔
      ssid.strlen ≤ 32 ∧ passwd.strlen ≤ 64 ∧ 0 < passwd.strlen := by
  unfold RecordRight
  rw [copiesInside_station, and_assoc]
  refine and_congr_right fun hssid => and_congr_right fun hpasswd => ?_
  obtain ⟨m, hm, hoverlay, hmode⟩ :=
    stationConfig_eq_some stack ssid passwd (by simp only [ssidOffset, wifiConfigSize]; omega)
      (by simp only [passwordOffset, wifiConfigSize]; omega)
  have hfields := (hoverlay.fieldsRight_iff hssid fun a ha => ne_zero_of_mem_text ha).mpr
    (Or.inl (Nat.le_refl _))
  -- the first cell of the password field
  have hcell := load_eq_field_iff.mp hfields.2 0 (by decide)
  rw [Nat.add_zero] at hcell
  have hauth : AuthRight m staThresholdAuthmode ↔ 0 < passwd.strlen := by
    unfold AuthRight
    rw [hmode, hcell, ne_eq (padded _ _), padded_eq_zero_iff fun a ha => ne_zero_of_mem_text ha]
    simp only [ne_eq, show enumBytes WifiAuth.wpa2Psk.toUInt8 ≠ enumBytes WifiAuth.open.toUInt8 by
      decide, not_false_iff, forall_const]
    exact Nat.not_le
  rw [hm, ← hauth]
  constructor
  · rintro ⟨m', hm', -, hright⟩
    cases hm'
    exact hright
  · intro hright
    exact ⟨m, rfl, hfields, hright⟩

end

/-! ## The access point -/

section

variable (stack : Nat → UInt8) (cfg : ApCfg)

/-- The ssid: the bytes of `cfg->ssid` up to its length, or to a null byte before. -/
def apSsid : List UInt8 := cells (Mem.load cfg.mem ApCfg.ssid cfg.sLen.toNat)

def apPasswd : List UInt8 := cells (Mem.load cfg.mem ApCfg.passwd cfg.pLen.toNat)

/-- How many bytes of the password are copied. -/
def apCopied : Nat := if cfg.pLen ≠ 0 ∧ cfg.pLen ≤ 64 then cfg.pLen.toNat else 0

/-- The copies stay inside their fields exactly if that of the ssid does: the length of the password
    is tested. -/
theorem copiesInside_ap : CopiesInside (apCopies cfg) ↔ cfg.sLen ≤ 32 := by
  have hle : cfg.sLen ≤ 32 ↔ cfg.sLen.toNat ≤ 32 := UInt8.le_iff_toNat_le
  unfold CopiesInside apCopies
  rw [hle]
  split
  · rename_i hrange
    have hp : cfg.pLen.toNat ≤ 64 := UInt8.le_iff_toNat_le.mp hrange.2
    simp [ssidOffset, ssidSize, passwordOffset, passwordSize, hp]
  · simp [ssidOffset, ssidSize]

/-- The record of the access point, for a length of the ssid that ends inside it. -/
theorem apConfig_eq_some (hssid : ssidOffset + cfg.sLen.toNat ≤ wifiConfigSize) :
    ∃ m, apConfig stack cfg = some m ∧ Overlay m (apSsid cfg) (apPasswd cfg) (apCopied cfg) ∧
      Mem.load m apAuthmode 4 = enumBytes (apAuth cfg).toUInt8 := by
  have hclear : ∀ j < passwordOffset + passwordSize, clearConfig stack j = 0 := fun j hj =>
    clearConfig_apply stack (Nat.lt_trans hj (by decide))
  have htake : ∀ p n, (Mem.load cfg.mem p n).take n = Mem.load cfg.mem p n := fun p n =>
    List.take_of_length_le (by rw [Mem.length_load])
  have hoverlay := overlay_ssid hclear (Mem.load cfg.mem ApCfg.ssid cfg.sLen.toNat) cfg.sLen.toNat
    (apPasswd cfg)
  rw [htake] at hoverlay
  have hfirst := run_inside (m := clearConfig stack)
    (c := ⟨ssidOffset, Mem.load cfg.mem ApCfg.ssid cfg.sLen.toNat, cfg.sLen.toNat⟩) hssid
  have hcopies : ∃ m, (apCopies cfg).foldlM StrncpyCall.run (clearConfig stack) = some m ∧
      Overlay m (apSsid cfg) (apPasswd cfg) (apCopied cfg) := by
    unfold apCopies apCopied
    rw [List.foldlM_cons, hfirst, Option.bind_eq_bind, Option.bind_some]
    split
    · rename_i hrange
      have hlen : cfg.pLen.toNat ≤ 64 := UInt8.le_iff_toNat_le.mp hrange.2
      -- the test keeps the copy inside the field, and so inside the record
      have hsecond := hoverlay.password (Mem.load cfg.mem ApCfg.passwd cfg.pLen.toNat)
        cfg.pLen.toNat
      rw [htake] at hsecond
      refine ⟨_, ?_, hsecond⟩
      rw [List.foldlM_cons, run_inside (by simp only [passwordOffset, wifiConfigSize]; omega)]
      rfl
    · exact ⟨_, rfl, hoverlay⟩
  obtain ⟨m, hm, hcopied⟩ := hcopies
  refine ⟨Mem.store (Mem.store (Mem.store (Mem.store (Mem.store m apChannel [cfg.chan])
    apBeaconInterval cfg.msInterval) apMaxConnection [cfg.maxConn]) apSsidHidden [cfg.ssidHidden])
    apAuthmode (enumBytes (apAuth cfg).toUInt8), ?_,
    ((((hcopied.store (by decide) _).store (by decide) _).store (by decide) _).store
      (by decide) _).store (by decide) _,
    Mem.load_store_at _ apAuthmode (enumBytes (apAuth cfg).toUInt8)⟩
  unfold apConfig
  simp only [hm]
  rfl

/-- The first byte of the password, and the others. -/
theorem load_apPasswd_succ (n : Nat) : Mem.load cfg.mem ApCfg.passwd (n + 1) =
    cfg.mem ApCfg.passwd :: Mem.load cfg.mem (ApCfg.passwd + 1) n := by
  rw [Nat.add_comm]
  exact Mem.load_add _ _ _ _

/-- The password is empty only if its length or its first byte says so. -/
theorem padded_apPasswd_zero (hlen : cfg.pLen ≠ 0) (hbyte : cfg.mem ApCfg.passwd ≠ 0) :
    padded (apPasswd cfg) 0 ≠ 0 := by
  obtain ⟨n, hn⟩ : ∃ n, cfg.pLen.toNat = n + 1 :=
    Nat.exists_eq_succ_of_ne_zero fun h => hlen (UInt8.toNat_inj.mp h)
  unfold apPasswd
  rw [hn, load_apPasswd_succ, cells_cons hbyte]
  exact hbyte

/-- The password is copied to its end, unless it is too long and not empty. -/
theorem length_apPasswd_le_iff :
    (apPasswd cfg).length ≤ apCopied cfg ↔ cfg.pLen ≤ 64 ∨ cfg.mem ApCfg.passwd = 0 := by
  have hpasswd : ∀ a ∈ apPasswd cfg, a ≠ 0 := fun a ha => ne_zero_of_mem_cells ha
  have hlen : (apPasswd cfg).length ≤ cfg.pLen.toNat :=
    (length_cells_le _).trans (by rw [Mem.length_load])
  unfold apCopied
  split
  · rename_i hrange
    exact iff_of_true hlen (Or.inl hrange.2)
  · -- nothing is copied: the password has to be empty
    rename_i hrange
    rw [← padded_eq_zero_iff hpasswd]
    constructor
    · intro hzero
      by_cases hlen : cfg.pLen = 0
      · exact Or.inl (hlen ▸ by decide)
      · exact Or.inr (not_not.mp fun hbyte => padded_apPasswd_zero cfg hlen hbyte hzero)
    · rintro (hle | hbyte)
      · have hzero : cfg.pLen = 0 := not_not.mp fun hne => hrange ⟨hne, hle⟩
        rw [padded_eq_zero_iff hpasswd]
        rwa [hzero] at hlen
      · unfold apPasswd
        cases hn : cfg.pLen.toNat with
        | zero => rfl
        | succ n =>
          rw [load_apPasswd_succ, hbyte]
          rfl

/-- If the password field is right, so is the mode. -/
theorem FieldsRight.authRight_ap {m : Nat → UInt8} {ssid : List UInt8}
    (h : FieldsRight m ssid (apPasswd cfg))
    (hmode : Mem.load m apAuthmode 4 = enumBytes (apAuth cfg).toUInt8) :
    AuthRight m apAuthmode := by
  have hcell := load_eq_field_iff.mp h.2 0 (by decide)
  rw [Nat.add_zero] at hcell
  unfold AuthRight
  rw [hmode, apAuth, hcell]
  split
  · rename_i hset
    -- the mode is only taken over if length and first byte say that there is a password
    exact fun _ => padded_apPasswd_zero cfg hset.1 hset.2
  · exact fun hne => absurd rfl hne

/-- The length of the ssid has to be at most that of its field, and a password that is too long to
    be copied has to be empty. -/
theorem ap_right_iff :
    RecordRight (apCopies cfg) (apConfig stack cfg) (apSsid cfg) (apPasswd cfg) apAuthmode ↔
      cfg.sLen ≤ 32 ∧ (cfg.pLen ≤ 64 ∨ cfg.mem ApCfg.passwd = 0) := by
  unfold RecordRight
  rw [copiesInside_ap]
  refine and_congr_right fun hssid => ?_
  have hlen : cfg.sLen.toNat ≤ 32 := UInt8.le_iff_toNat_le.mp hssid
  obtain ⟨m, hm, hoverlay, hmode⟩ := apConfig_eq_some stack cfg
    (by simp only [ssidOffset, wifiConfigSize]; omega)
  have hfits : (apSsid cfg).length ≤ ssidSize :=
    (length_cells_le _).trans (by rw [Mem.length_load]; exact hlen)
  -- a copy that fills the field takes the whole password
  have hcopied : apCopied cfg < passwordSize ∨ (apPasswd cfg).length ≤ apCopied cfg := by
    by_cases hrange : cfg.pLen ≤ 64
    · exact Or.inr ((length_apPasswd_le_iff cfg).mpr (Or.inl hrange))
    · exact Or.inl (by rw [apCopied, if_neg fun h => hrange h.2]; decide)
  have hfields : FieldsRight m (apSsid cfg) (apPasswd cfg) ↔
      cfg.pLen ≤ 64 ∨ cfg.mem ApCfg.passwd = 0 := by
    rw [hoverlay.fieldsRight_iff hfits fun a ha => ne_zero_of_mem_cells ha,
      ← length_apPasswd_le_iff]
    omega
  rw [hm, ← hfields]
  constructor
  · rintro ⟨m', hm', hright, -⟩
    cases hm'
    exact hright
  · intro hright
    exact ⟨m, rfl, hright, hright.authRight_ap cfg hmode⟩

end

/-! ## Both records -/

/-- For every ssid and every password the record of the station is right, with each copy inside of
    its field, if and only if the ssid has at most 32 bytes and the password 1 to 64. For every
    configuration of an access point its record is, if and only if the length of the ssid is at most
    32 and that of the password at most 64, or the password is empty. -/
theorem wifi_credentials_iff (stack : Nat → UInt8) :
    (∀ ssid passwd : CString,
      RecordRight (stationCopies ssid passwd) (stationConfig stack ssid passwd) ssid.text
          passwd.text staThresholdAuthmode ↔
        ssid.strlen ≤ 32 ∧ passwd.strlen ≤ 64 ∧ 0 < passwd.strlen) ∧
    ∀ cfg : ApCfg,
      RecordRight (apCopies cfg) (apConfig stack cfg) (apSsid cfg) (apPasswd cfg) apAuthmode ↔
        cfg.sLen ≤ 32 ∧ (cfg.pLen ≤ 64 ∨ cfg.mem ApCfg.passwd = 0) :=
  ⟨station_right_iff stack, ap_right_iff stack⟩

/-- An ssid of 33 bytes without a password puts its last byte into the password field, and one of
    133 bytes is written behind the record. An access point with a password of 65 bytes gets a
    protected mode and no password. -/
theorem not_wifi_credentials :
    (∃ m, stationConfig (fun _ => 0) ⟨List.replicate 33 97 ++ [0], by decide⟩ ⟨[0], by decide⟩ =
        some m ∧ ¬ FieldsRight m (List.replicate 33 97) []) ∧
      stationConfig (fun _ => 0) ⟨List.replicate 133 97 ++ [0], by decide⟩ ⟨[0], by decide⟩ =
        none ∧
      ∃ m, apConfig (fun _ => 0)
          ⟨fun j => if j < 2 then 97 else if j = 33 then 2 else if j = 99 then 65
            else if j = 104 then 3 else if 34 ≤ j ∧ j < 99 then 112 else 0⟩ = some m ∧
        ¬ AuthRight m apAuthmode := by
  refine ⟨?_, stationConfig_eq_none _ _ _ (by decide +kernel), ?_⟩
  · obtain ⟨m, hm, hoverlay, -⟩ := stationConfig_eq_some (fun _ => 0)
      ⟨List.replicate 33 97 ++ [0], by decide⟩ ⟨[0], by decide⟩ (by decide) (by decide)
    refine ⟨m, hm, fun hright => ?_⟩
    exact absurd (hoverlay.password_iff.mp hright.2 0 (by decide) (by decide)) (by decide)
  · obtain ⟨m, hm, hoverlay, hmode⟩ := apConfig_eq_some (fun _ => 0)
      ⟨fun j => if j < 2 then 97 else if j = 33 then 2 else if j = 99 then 65
        else if j = 104 then 3 else if 34 ≤ j ∧ j < 99 then 112 else 0⟩ (by decide)
    refine ⟨m, hm, fun hright => hright ?_ ?_⟩
    · rw [hmode]
      decide
    · -- nothing was copied, so that the ssid field and its zeros go on here
      rw [hoverlay passwordOffset (by decide)]
      decide

end Ivy.Spec
